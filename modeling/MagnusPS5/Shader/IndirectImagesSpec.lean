/-
What the materialization of an image table collects.

The offsets `selector * stride + offset` modulo 2^32 are all in one residue class modulo the
greatest common divisor of the stride and 2^32. The loop goes through this class up to the end
of the table, and behind the end a shader loads zero, which is a key from the start.
-/
import MagnusPS5.Shader.IndirectImages

namespace MagnusPS5.Shader.ResourceSpecialization

open Lib Nat BitVec

/-! ## Reads -/

variable {memory : Memory} {use_pc dynamic_offset immediate_offset heap_offset key : Word}
  {n step limit probe_count fuel : ℕ} {material heap : ShaderBufferResource} {keys : List Word}
  {table : IndirectImage}

section Reads

variable {descriptor : ShaderBufferResource}

theorem readConstBuffer_of_ok {word : Word}
    (hoffset : dynamic_offset.toNat + immediate_offset.toNat < 2 ^ 32)
    (h : readScalarBufferWord descriptor dynamic_offset immediate_offset memory use_pc = .ok word) :
    readConstBuffer descriptor memory (dynamic_offset + immediate_offset) = some word := by
  have haddress : (dynamic_offset + immediate_offset).toNat =
      dynamic_offset.toNat + immediate_offset.toNat := by
    rw [toNat_add, mod_eq_of_lt hoffset]
  unfold readScalarBufferWord at h
  unfold readConstBuffer
  dsimp only at h ⊢
  rw [haddress]
  split at h
  next hbounds =>
    rw [if_neg (by omega)]
    rw [Except.ok.inj h]
  · rw [if_pos (by omega)]
    split at h
    · nomatch h
    · split at h
      · nomatch h
      next read hread =>
        rw [← Except.ok.inj h]
        exact hread

theorem readConstBuffer_behind {address : Word} (h : descriptor.scalarBufferSize ≤ address.toNat) :
    readConstBuffer descriptor memory address = some 0 := by
  exact if_neg (by omega)

theorem readScalarBufferWord_ne_unfinished :
    readScalarBufferWord descriptor dynamic_offset immediate_offset memory use_pc ≠
      .error .unfinished := by
  unfold readScalarBufferWord
  dsimp only
  split
  · simp
  · split
    · simp
    · split <;> simp

theorem readDwords_ne_unfinished (n : ℕ) :
    readDwords descriptor memory use_pc heap_offset n ≠ .error .unfinished := by
  induction n with
  | zero => simp [readDwords]
  | succ n ih =>
    intro h
    obtain hdwords | ⟨dwords, -, h⟩ := bind_eq_error.mp h
    · exact ih hdwords
    · obtain hword | ⟨word, -, h⟩ := bind_eq_error.mp h
      · exact readScalarBufferWord_ne_unfinished hword
      · nomatch h

theorem heapDwords_of_ok {dwords : Vector Word n} (hoffset : heap_offset.toNat + n * 4 ≤ 2 ^ 32)
    (h : readDwords descriptor memory use_pc heap_offset n = .ok dwords) :
    heapDwords descriptor memory heap_offset n = some dwords := by
  induction n with
  | zero =>
    rw [← Except.ok.inj h]
    rfl
  | succ n ih =>
    obtain ⟨before, hbefore, h⟩ := bind_eq_ok.mp h
    obtain ⟨word, hword, h⟩ := bind_eq_ok.mp h
    have himmediate : (BitVec.ofNat 32 (n * 4)).toNat = n * 4 := by
      rw [toNat_ofNat]
      exact mod_eq_of_lt (by omega)
    unfold heapDwords
    rw [ih (by omega) hbefore, ← Except.ok.inj h]
    rw [readConstBuffer_of_ok (by omega) hword]
    rfl

theorem heapImage_of_ok {dwords : Vector Word 8}
    (h : readDwords descriptor memory use_pc (key <<< 5) 8 = .ok dwords) :
    heapImage descriptor memory key = some (canonicalDescriptor dwords) := by
  have hoffset : (key <<< 5).toNat + 8 * 4 ≤ 2 ^ 32 := by
    rw [BitVec.toNat_shiftLeft, Nat.shiftLeft_eq]
    omega
  unfold heapImage
  rw [heapDwords_of_ok hoffset h]
  rfl

end Reads

/-! ## Keys -/

section Keys

variable
  {offset : ℕ} {keys' : List Word}

theorem collectKeys_ne_unfinished (hoffset : offset ≤ limit → limit - offset < fuel * step)
    (hfuel : 0 < fuel) :
    collectKeys material memory use_pc step limit probe_count fuel offset keys ≠
      .error .unfinished := by
  induction fuel generalizing offset keys with
  | zero => omega
  | succ fuel ih =>
    unfold collectKeys
    split
    next hlimit =>
      intro h
      obtain hread | ⟨key, -, h⟩ := bind_eq_error.mp h
      · exact readScalarBufferWord_ne_unfinished hread
      · dsimp only at h
        split at h
        · nomatch h
        · have hturns : (fuel + 1) * step = fuel * step + step := by ring
          have hmore := hoffset hlimit.1
          rw [hturns] at hmore
          have hleft : 0 < fuel := by
            by_contra hnone
            rw [Nat.eq_zero_of_not_pos hnone, Nat.zero_mul] at hmore
            omega
          exact ih (fun _ => by omega) hleft h
    · simp

/-- What the loop adds to the keys: at most one in a turn, none twice, and every word that it
passes. -/
theorem collectKeys_of_ok (hprobe : probe_count ≠ 0)
    (hoffset : offset ≤ limit) (hn : limit - offset < n * step) (hnodup : keys.Nodup)
    (h : collectKeys material memory use_pc step limit probe_count fuel offset keys = .ok keys') :
    keys'.Nodup ∧ keys'.length ≤ keys.length + n ∧ (∀ key ∈ keys, key ∈ keys') ∧
      ∀ k, offset + k * step ≤ limit → ∃ key ∈ keys',
        readConstBuffer material memory (.ofNat 32 (offset + k * step)) = some key := by
  induction fuel generalizing offset keys n with
  | zero => exact absurd h (by simp [collectKeys])
  | succ fuel ih =>
    unfold collectKeys at h
    rw [if_pos ⟨hoffset, hprobe⟩] at h
    obtain ⟨key, hread, h⟩ := bind_eq_ok.mp h
    obtain ⟨added, hadded⟩ : ∃ added, added = if key ∈ keys then keys else keys ++ [key] :=
      ⟨_, rfl⟩
    rw [← hadded] at h
    have hkept : ∀ other ∈ keys, other ∈ added := by
      intro other hother
      rw [hadded]
      split
      · exact hother
      · exact List.mem_append_left _ hother
    have hkey : key ∈ added := by
      rw [hadded]
      split
      · assumption
      · exact List.mem_append_right _ (List.mem_singleton_self key)
    have hnodup' : added.Nodup := by
      rw [hadded]
      split
      · exact hnodup
      next hfresh =>
        refine List.nodup_append.mpr ⟨hnodup, List.nodup_singleton key, ?_⟩
        intro a ha b hb heq
        rw [heq, List.mem_singleton.mp hb] at ha
        exact hfresh ha
    have hlength : added.length ≤ keys.length + 1 := by
      rw [hadded]
      split <;> simp
    have hload : readConstBuffer material memory (.ofNat 32 offset) = some key := by
      have hword : (BitVec.ofNat 32 offset).toNat + (0 : Word).toNat < 2 ^ 32 := by
        rw [toNat_ofNat]
        exact mod_lt _ (by decide)
      have hread := readConstBuffer_of_ok hword hread
      rwa [add_zero] at hread
    cases n with
    | zero => omega
    | succ n =>
      have hturns : (n + 1) * step = n * step + step := by ring
      split at h
      · -- this was the last offset
        rw [hturns] at hn
        cases h
        refine ⟨hnodup', by omega, hkept, ?_⟩
        intro k hk
        have hzero : k = 0 := by
          by_contra hk0
          have hle : 1 * step ≤ k * step := mul_le_mul_right step (by omega)
          omega
        rw [hzero, Nat.zero_mul, Nat.add_zero]
        exact ⟨key, hkey, hload⟩
      · obtain ⟨hnodup'', hlength', hkept', hall⟩ :=
          ih (n := n) (by omega) (by omega) hnodup' h
        refine ⟨hnodup'', by omega, fun other hother => hkept' other (hkept other hother), ?_⟩
        intro k hk
        cases k with
        | zero =>
          rw [Nat.zero_mul, Nat.add_zero]
          exact ⟨key, hkept' key hkey, hload⟩
        | succ k =>
          have hk' : offset + (k + 1) * step = offset + step + k * step := by ring
          rw [hk'] at hk ⊢
          exact hall k hk

/-- **An offset that a selector yields** is in the residue class of the table. -/
theorem selector_offset_mod (indirect : IndirectSource) (selector : Word) :
    (selector * indirect.selector_stride + indirect.selector_offset).toNat %
        .gcd indirect.selector_stride.toNat (2 ^ 32) =
      indirect.selector_offset.toNat % .gcd indirect.selector_stride.toNat (2 ^ 32) := by
  have hperiod : Nat.gcd indirect.selector_stride.toNat (2 ^ 32) ∣ 2 ^ 32 := Nat.gcd_dvd_right _ _
  have hstride : .gcd indirect.selector_stride.toNat (2 ^ 32) ∣
      selector.toNat * indirect.selector_stride.toNat :=
    Dvd.dvd.mul_left (gcd_dvd_left _ _) _
  calc
    _ = (selector.toNat * indirect.selector_stride.toNat + indirect.selector_offset.toNat) %
          .gcd indirect.selector_stride.toNat (2 ^ 32) := by
        rw [toNat_add, toNat_mul, mod_mod_of_dvd _ hperiod, add_mod,
          mod_mod_of_dvd _ hperiod, ← add_mod]
    _ = _ := by
        rw [add_mod, mod_eq_zero_of_dvd hstride, zero_add, mod_mod]

end Keys

/-! ## Candidates -/

section Candidates

variable
  {done : List Word} {next : IndirectImage}

/-- Every key that is done has a candidate, which is the image that the heap has there. -/
structure Covers (heap : ShaderBufferResource) (memory : Memory) (done : List Word)
    (next : IndirectImage) : Prop where
  lengths : next.candidates.length = done.length
  descriptors_le : next.descriptors.length ≤ done.length
  image : ∀ (i : ℕ) key, done[i]? = some key → ∃ c descriptor, next.candidates[i]? = some c ∧
    next.descriptors[c]? = some descriptor ∧ heapImage heap memory key = some descriptor

theorem addCandidate_spec (next : IndirectImage) (candidate : ImageDescriptor) :
    ∃ c, (addCandidate next candidate).candidates = next.candidates ++ [c] ∧
      (addCandidate next candidate).descriptors[c]? = some candidate ∧
      (∀ (j : ℕ) descriptor, next.descriptors[j]? = some descriptor →
        (addCandidate next candidate).descriptors[j]? = some descriptor) ∧
      (addCandidate next candidate).descriptors.length ≤ next.descriptors.length + 1 ∧
      (addCandidate next candidate).keys = next.keys ∧
      (addCandidate next candidate).capacity = next.capacity := by
  unfold addCandidate
  split
  · refine ⟨_, rfl, ?_, ?_, ?_, rfl, rfl⟩
    · exact List.getElem?_concat_length
    · intro j descriptor hj
      exact List.getElem?_append_left (List.getElem?_eq_some_iff.mp hj).1 ▸ hj
    · rw [List.length_append, List.length_singleton]
  next found hfound =>
    obtain ⟨hlt, hget, -⟩ := List.idxOf?_eq_some_iff.mp hfound
    refine ⟨found, rfl, ?_, fun j descriptor hj => hj, le_succ _, rfl, rfl⟩
    exact List.getElem?_eq_some_iff.mpr ⟨hlt, hget⟩

theorem Covers.add (h : Covers heap memory done next) {candidate : ImageDescriptor}
    (hkey : heapImage heap memory key = some candidate) :
    Covers heap memory (done ++ [key]) (addCandidate next candidate) := by
  obtain ⟨c, hcandidates, hc, hkept, hlength, -, -⟩ := addCandidate_spec next candidate
  refine ⟨?_, ?_, ?_⟩
  · rw [hcandidates, List.length_append, List.length_append, h.lengths]
    rfl
  · rw [List.length_append, List.length_singleton]
    exact hlength.trans (succ_le_succ h.descriptors_le)
  · intro i other hi
    rw [hcandidates]
    by_cases hlast : i < done.length
    · rw [List.getElem?_append_left hlast] at hi
      obtain ⟨d, descriptor, hd, hdescriptor, himage⟩ := h.image i other hi
      refine ⟨d, descriptor, ?_, hkept d descriptor hdescriptor, himage⟩
      rw [List.getElem?_append_left (h.lengths ▸ hlast)]
      exact hd
    · have hlt := (List.getElem?_eq_some_iff.mp hi).1
      rw [List.length_append, List.length_singleton] at hlt
      obtain rfl : i = done.length := by omega
      rw [List.getElem?_concat_length] at hi
      cases hi
      refine ⟨c, candidate, ?_, hc, hkey⟩
      rw [← h.lengths]
      exact List.getElem?_concat_length

theorem covers_nil (heap : ShaderBufferResource) (memory : Memory) (capacity : ℕ)
    (keys : List Word) : Covers heap memory [] ⟨0, capacity, keys, [], []⟩ :=
  ⟨rfl, le_rfl, fun _ _ hi => nomatch hi⟩

theorem collectCandidates_of_ok (hnext : Covers heap memory done next)
    (h : collectCandidates heap memory use_pc next keys = .ok table) :
    Covers heap memory (done ++ keys) table ∧ table.keys = next.keys ∧
      table.capacity = next.capacity := by
  induction keys generalizing done next with
  | nil =>
    cases h
    rw [List.append_nil]
    exact ⟨hnext, rfl, rfl⟩
  | cons key keys ih =>
    obtain ⟨dwords, hread, h⟩ := bind_eq_ok.mp h
    obtain ⟨hcovers, hkeys, hcapacity⟩ := ih (hnext.add (heapImage_of_ok hread)) h
    obtain ⟨-, -, -, -, -, hkeys', hcapacity'⟩ :=
      addCandidate_spec next (canonicalDescriptor dwords)
    rw [List.append_assoc] at hcovers
    exact ⟨hcovers, hkeys.trans hkeys', hcapacity.trans hcapacity'⟩

theorem collectCandidates_ne_unfinished :
    collectCandidates heap memory use_pc next keys ≠ .error .unfinished := by
  induction keys generalizing next with
  | nil => simp [collectCandidates]
  | cons key keys ih =>
    intro h
    obtain hread | ⟨dwords, -, h⟩ := bind_eq_error.mp h
    · exact readDwords_ne_unfinished 8 hread
    · exact ih h

end Candidates

/-! ## Tables -/

section Tables

variable {indirect : IndirectSource} {material_value heap_value : DescriptorValue}

/-- What a table has that was made of a description of its materials. -/
structure Materialized (indirect : IndirectSource) (material heap : ShaderBufferResource)
    (memory : Memory) (table : IndirectImage) : Prop where
  nodup : table.keys.Nodup
  keys_le : table.keys.length ≤ table.capacity
  capacity_le : table.capacity ≤ maxIndirectImageProbes + 1
  selector : ∀ selector, ∃ key ∈ table.keys,
    selectorKey indirect material memory selector = some key
  covers : Covers heap memory table.keys table

/-- **No key is missed**: the keys of the loop are all that a selector can load. -/
theorem selectorKey_mem (hstep : step = .gcd indirect.selector_stride.toNat (2 ^ 32))
    (hlimit : limit = min (2 ^ 32 - 1) (material.scalarBufferSize + 3))
    (hcount : probe_count = if indirect.selector_offset.toNat % step ≤ limit then
      (limit - indirect.selector_offset.toNat % step) / step + 1 else 0)
    (h : collectKeys material memory use_pc step limit probe_count fuel
      (indirect.selector_offset.toNat % step) [0] = .ok keys) :
    keys.Nodup ∧ keys.length ≤ probe_count + 1 ∧ ∀ selector, ∃ key ∈ keys,
      selectorKey indirect material memory selector = some key := by
  have hpos : 0 < step := by
    rw [hstep]
    exact gcd_pos_of_pos_right _ (by decide)
  -- an offset behind the limit is behind the end of the table
  have hbehind {offset : Word} (hoffset : limit < offset.toNat) :
      readConstBuffer material memory offset = some 0 := by
    exact readConstBuffer_behind (by omega)
  split at hcount
  next hresidue =>
    have hturns : limit - indirect.selector_offset.toNat % step < probe_count * step := by
      rw [hcount, mul_comm]
      exact lt_mul_div_succ _ hpos
    obtain ⟨hnodup, hlength, hkept, hall⟩ :=
      collectKeys_of_ok (hcount ▸ succ_ne_zero _) hresidue hturns (List.nodup_singleton 0) h
    refine ⟨hnodup, ?_, ?_⟩
    · rw [List.length_singleton] at hlength
      omega
    · intro selector
      unfold selectorKey
      obtain ⟨offset, hoffset⟩ : ∃ offset, offset =
          selector * indirect.selector_stride + indirect.selector_offset := ⟨_, rfl⟩
      rw [← hoffset]
      by_cases hin : offset.toNat ≤ limit
      · have hclass : indirect.selector_offset.toNat % step + offset.toNat / step * step =
            offset.toNat := by
          rw [hstep, ← selector_offset_mod indirect selector, ← hoffset, mul_comm]
          exact mod_add_div _ _
        obtain ⟨key, hkey, hread⟩ := hall (offset.toNat / step) (by omega)
        rw [hclass, ofNat_toNat, setWidth_eq] at hread
        exact ⟨key, hkey, hread⟩
      · exact ⟨0, hkept 0 (List.mem_singleton_self 0), hbehind (by omega)⟩
  next hresidue =>
    -- the whole class is behind the limit, and the loop does nothing
    have hkeys : keys = [0] := by
      cases fuel with
      | zero => exact absurd h (by simp [collectKeys])
      | succ fuel =>
        unfold collectKeys at h
        rw [if_neg fun hlimit => hresidue hlimit.1] at h
        exact (Except.ok.inj h).symm
    rw [hkeys]
    refine ⟨List.nodup_singleton 0, by simp, ?_⟩
    intro selector
    refine ⟨0, List.mem_singleton_self 0, hbehind ?_⟩
    have hmod := selector_offset_mod indirect selector
    rw [← hstep] at hmod
    have hle := mod_le (selector * indirect.selector_stride + indirect.selector_offset).toNat step
    omega

theorem materialized_of_ok
    (h : materializeIndirectImage indirect material_value heap_value memory use_pc = .ok table) :
    ∃ material heap, decodeBufferDescriptor material_value = some material ∧
      decodeBufferDescriptor heap_value = some heap ∧
      Materialized indirect material heap memory table := by
  unfold materializeIndirectImage at h
  split at h
  next material heap hmaterial hheap =>
    refine ⟨material, heap, hmaterial, hheap, ?_⟩
    obtain ⟨_, -, h⟩ := bind_eq_ok.mp h
    obtain ⟨_, hprobes, h⟩ := bind_eq_ok.mp h
    obtain ⟨keys, hkeys, h⟩ := bind_eq_ok.mp h
    obtain ⟨hnodup, hlength, hall⟩ := selectorKey_mem rfl rfl rfl hkeys
    obtain ⟨hcovers, hsame, hcapacity⟩ := collectCandidates_of_ok (covers_nil heap memory _ keys) h
    refine ⟨?_, ?_, ?_, ?_, ?_⟩
    · rw [hsame]
      exact hnodup
    · rw [hsame, hcapacity]
      exact hlength
    · rw [hcapacity]
      exact succ_le_succ (check_eq_ok.mp hprobes)
    · intro selector
      rw [hsame]
      exact hall selector
    · rw [hsame]
      exact hcovers
  · nomatch h

/-- **The enumeration terminates**, whatever the description is. -/
theorem materializeIndirectImage_ne_unfinished :
    materializeIndirectImage indirect material_value heap_value memory use_pc ≠
      .error .unfinished := by
  unfold materializeIndirectImage
  split
  · intro h
    obtain hstride | ⟨_, -, h⟩ := bind_eq_error.mp h
    · exact absurd (check_eq_error.mp hstride).2 (by simp)
    obtain hprobes | ⟨_, -, h⟩ := bind_eq_error.mp h
    · exact absurd (check_eq_error.mp hprobes).2 (by simp)
    obtain hkeys | ⟨keys, -, h⟩ := bind_eq_error.mp h
    · refine collectKeys_ne_unfinished (fun hresidue => ?_) (succ_pos _) hkeys
      rw [if_pos hresidue]
      have hpos : 0 < .gcd indirect.selector_stride.toNat (2 ^ 32) :=
        gcd_pos_of_pos_right _ (by decide)
      refine (lt_mul_div_succ _ hpos).trans_le ?_
      rw [mul_comm]
      exact mul_le_mul_right _ (le_succ _)
    · exact collectCandidates_ne_unfinished h
  · simp

end Tables

end MagnusPS5.Shader.ResourceSpecialization
