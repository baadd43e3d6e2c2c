/-
When a lowered instruction reads its sources as the architecture does.

The architecture reads all sources of an instruction before it writes anything
(`architecture`). What an instruction is lowered to makes its writes in sequence
(`execute_eq_sequential`): the loads that the translator takes as a group with the sources
of the first component, the DS reads with the address register as the components before
have left it, the comparison behind a minimum or maximum with operands that it may have
overwritten.
-/
import MagnusPS5.Shader.LoweredReads

namespace MagnusPS5.Shader.LoweredReads

open Lib
open Function (update)
open Function Registers Nat List Register ScalarDestination MinMax

/-! ## The architecture -/

/-- What an instruction writes, all of it found in the state before. -/
def results (M : Memory) (s : Registers) : Decoded → List (Register × Word)
  | .scalarLoad buffer dst src0 src1 offset data_dwords =>
    (List.range data_dwords).map fun i =>
      (offsetDecodedRegister dst.reg i,
        if buffer then
          M.constBuffer (s.getBufferResource (resourceIndexFromOperand src0)) (s.readU32 src1)
            (offset + dwordOffset i)
        else
          M.address (s.readScalarCode (rawScalarLoadBase src0))
            (s.readScalarCode (rawScalarLoadBase src0 + 1)) (s.readU32 src1)
            (offset + dwordOffset i))
  | .bufferLoad data_bits data_signed vdata vaddr src1 src2 idxen offen offset data_dwords
      format_components component_offset =>
      (List.range (loadCount data_bits data_dwords)).map fun i =>
        (.vector (vdata + i),
          if format_components ≤ i then 0
          else
            widenSubdword data_bits data_signed
              (M.buffer data_bits (s.getBufferResource (resourceIndexFromOperand src1))
                (if idxen then s.word (.vector vaddr) else 0)
                (if offen then s.word (.vector (if idxen then vaddr + 1 else vaddr)) else 0)
                (s.readU32 src2)
                ⟨resourceIndexFromOperand src1, offset + component_offset i, i, data_dwords⟩))
  | .dsRead data_bits data_signed gds vdst vaddr offset data_dwords =>
    (List.range (loadCount data_bits data_dwords)).map fun i =>
      (.vector (vdst + i), widenSubdword data_bits data_signed
        (M.shared gds data_bits (s.word (.vector vaddr) + (offset + dwordOffset i))))
  | .dsRead2 gds vdst vaddr offset secondary_offset dwords_per_read =>
    (List.range (dwords_per_read + dwords_per_read)).map fun i =>
      (.vector (vdst + i), M.shared gds 32 (s.word (.vector vaddr) +
        (if i < dwords_per_read then offset + dwordOffset i
          else secondary_offset + dwordOffset (i - dwords_per_read))))
  | .minMax op dst src0 src1 =>
    [(dst.reg, op.apply (s.readU32 src0) (s.readU32 src1)),
      (.scc, if op.test (s.readU32 src0) (s.readU32 src1) then 1 else 0)]

/-- The registers behind an instruction, in the architecture. -/
def architecture (lane : ℕ) (M : Memory) (decoded : Decoded) (s : Registers) : Registers :=
  writeAll (fun dst value r => r.writeU32 lane dst value) (results M s decoded) s

/-- The value of an operand that no register holds. -/
def Operand.constant? : Operand → Option Word
  | .immediateU32 imm => some imm
  | .register .null => some 0
  | .register _ => none

/-- When an instruction does not overwrite a source that it reads again: the address register
of a DS read is none of its results but the last one; and a minimum or maximum does not
replace its second operand, unless the operands are the same, or the first one is a constant
that never is the result of the comparison. -/
def Meets : Decoded → Prop
  | .scalarLoad .. | .bufferLoad .. => True
  | .dsRead data_bits _ _ vdst vaddr _ data_dwords =>
    ∀ j, j + 1 < loadCount data_bits data_dwords → vaddr ≠ vdst + j
  | .dsRead2 _ vdst vaddr _ _ dwords_per_read =>
    ∀ j, j + 1 < dwords_per_read + dwords_per_read → vaddr ≠ vdst + j
  | .minMax op dst src0 src1 =>
    src1 = .register dst.reg → dst.reg = .null ∨ src0 = src1 ∨
      ∃ a, src0.constant? = some a ∧ ∀ b, op.test a b = false

variable {lane : ℕ} {M : Memory} {r s : Registers}

/-! ## Registers -/

/-- `Registers.writeU32`, as the assignments of the library make it. -/
abbrev write (lane : ℕ) (dst : Register) (value : Word) (r : Registers) : Registers :=
  r.writeU32 lane dst value

theorem write_vector (v : ℕ) (value : Word) :
    write lane (.vector v) value r =
      if r.exec lane then { r with word := update r.word (.vector v) value } else r := rfl

variable {v n : ℕ} {src src0 src1 : Operand} {dst : ScalarDestination}

theorem word_write_vector {value : Word} {reg : Register} (h : reg ≠ .vector v) :
    (write lane (.vector v) value r).word reg = r.word reg := by
  rw [write_vector]
  split
  · exact update_of_ne h _ _
  · rfl

theorem word_write_vector_self {value : Word} (h : r.exec lane = true) :
    (write lane (.vector v) value r).word (.vector v) = value := by
  rw [write_vector, if_pos h]
  exact update_self _ _ _

@[simp] theorem exec_write_vector (v : ℕ) (value : Word) :
    (write lane (.vector v) value r).exec lane = r.exec lane := by
  unfold exec
  rw [word_write_vector (by simp), word_write_vector (by simp)]

theorem readScalarCode_write_vector (v : ℕ) (value : Word) (code : ℕ) :
    (write lane (.vector v) value r).readScalarCode code = r.readScalarCode code := by
  unfold readScalarCode
  split
  · exact word_write_vector (by simp)
  · split
    · exact word_write_vector (by simp)
    · exact word_write_vector (by simp)
    · exact word_write_vector (by simp)
    · exact word_write_vector (by simp)
    · exact word_write_vector (by simp)
    · rfl

theorem getBufferResource_write_vector (v : ℕ) (value : Word) (resource : ℕ) :
    (write lane (.vector v) value r).getBufferResource resource = r.getBufferResource resource :=
  funext fun _ => readScalarCode_write_vector v value _

@[simp] theorem offsetDecodedRegister_vector (v i : ℕ) :
    offsetDecodedRegister (.vector v) i = .vector (v + i) := by
  unfold offsetDecodedRegister
  split
  next h =>
    rw [h, Nat.add_zero]
  · rfl

/-! ## What is lowered, as a sequence of assignments -/

abbrev Write := Assignment Registers Register Word

/-- Reads of LDS or GDS at an address that each of them finds anew. -/
def dsReads (M : Memory) (data_bits : ℕ) (data_signed gds : Bool) (vdst vaddr : ℕ)
    (offset : ℕ → Word) (n : ℕ) : List Write :=
  (List.range n).map fun i =>
    ⟨.vector (vdst + i), fun r => widenSubdword data_bits data_signed
      (M.shared gds data_bits (r.word (.vector vaddr) + offset i))⟩

/-- The offsets of a DS read with two of them. -/
def read2Offset (offset secondary_offset : Word) (dwords_per_read i : ℕ) : Word :=
  if i < dwords_per_read then offset + dwordOffset i
  else secondary_offset + dwordOffset (i - dwords_per_read)

/-- The writes of an instruction in the order in which they are made, with the sources of a
group as they were in `s`. -/
def writes (M : Memory) (s : Registers) : Decoded → List Write
  | .scalarLoad buffer dst src0 src1 offset data_dwords =>
    (List.range data_dwords).map fun i =>
      ⟨offsetDecodedRegister dst.reg i, fun _ =>
        if buffer then
          M.constBuffer (s.getBufferResource (resourceIndexFromOperand src0)) (s.readU32 src1)
            (offset + dwordOffset i)
        else
          M.address (s.readScalarCode (rawScalarLoadBase src0))
            (s.readScalarCode (rawScalarLoadBase src0 + 1)) (s.readU32 src1)
            (offset + dwordOffset i)⟩
  | .bufferLoad data_bits data_signed vdata vaddr src1 src2 idxen offen offset data_dwords
      format_components component_offset =>
      (List.range (loadCount data_bits data_dwords)).map fun i =>
        ⟨.vector (vdata + i), fun r =>
          if format_components ≤ i then 0
          else
            widenSubdword data_bits data_signed
              (M.buffer data_bits (r.getBufferResource (resourceIndexFromOperand src1))
                (if idxen then s.word (.vector vaddr) else 0)
                (if offen then s.word (.vector (if idxen then vaddr + 1 else vaddr)) else 0)
                (s.readU32 src2)
                ⟨resourceIndexFromOperand src1, offset + component_offset i, i, data_dwords⟩)⟩
  | .dsRead data_bits data_signed gds vdst vaddr offset data_dwords =>
    dsReads M data_bits data_signed gds vdst vaddr (fun i => offset + dwordOffset i)
      (loadCount data_bits data_dwords)
  | .dsRead2 gds vdst vaddr offset secondary_offset dwords_per_read =>
    dsReads M 32 false gds vdst vaddr (read2Offset offset secondary_offset dwords_per_read)
      (dwords_per_read + dwords_per_read)
  | .minMax op dst src0 src1 =>
    [⟨dst.reg, fun r => op.apply (r.readU32 src0) (r.readU32 src1)⟩,
      ⟨.scc, fun r => if op.test (r.readU32 src0) (r.readU32 src1) then 1 else 0⟩]

theorem results_eq (decoded : Decoded) :
    results M s decoded = (writes M s decoded).map fun a => (a.dst, a.value s) := by
  cases decoded with
  | scalarLoad | bufferLoad | dsRead => simp [results, writes, dsReads]
  | dsRead2 => simp [results, writes, dsReads, read2Offset, widenSubdword]
  | minMax => simp [results, writes]

theorem architecture_eq (decoded : Decoded) :
    architecture lane M decoded s = simultaneous (write lane) (writes M s decoded) s := by
  unfold architecture simultaneous
  rw [results_eq]

/-! ## Groups -/

/-- The instructions of a list, translated one after the other. -/
def translateAll (lane : ℕ) (M : Memory) (pc : ℕ) (block : Block) (ops : List Op) : Block :=
  ops.foldl (fun block op => translateInstruction lane M block ⟨pc, op⟩) block

theorem execute_eq (pc : ℕ) (block : Block) (decoded : Decoded) :
    execute lane M pc block decoded = (translateAll lane M pc block (lower decoded)).registers :=
  rfl

theorem translateAll_range {pc : ℕ} {block : Block} {op : ℕ → Op} {assignment : ℕ → Write}
    (I : ℕ → Block → Prop) (hstep : ∀ k block, k < n → I k block →
      (translateInstruction lane M block ⟨pc, op k⟩).registers =
          write lane (assignment k).dst ((assignment k).value block.registers) block.registers ∧
        I (k + 1) (translateInstruction lane M block ⟨pc, op k⟩)) (hstart : I 0 block) :
    (translateAll lane M pc block ((range n).map op)).registers =
        sequential (write lane) ((range n).map assignment) block.registers ∧
      I n (translateAll lane M pc block ((range n).map op)) := by
  induction n with
  | zero => exact ⟨rfl, hstart⟩
  | succ n ih =>
    obtain ⟨hregisters, hI⟩ := ih fun k block hk => hstep k block (lt_succ_of_lt hk)
    obtain ⟨hlast, hI'⟩ := hstep n _ (lt_succ_self n) hI
    rw [range_succ, map_append, map_append, sequential_append, ← hregisters]
    unfold translateAll at hlast hI' ⊢
    rw [foldl_append]
    exact ⟨hlast, hI'⟩

theorem snapshot_seen {α : Type} (grouped : Bool) (taken : Option (ℕ × α))
    (pc component_index : ℕ) (value found : α) (hfirst : component_index = 0 → value = found)
    (hlater : component_index ≠ 0 → grouped = true ∧ taken = some (pc, found)) :
    ((snapshot grouped taken pc component_index value).map Prod.snd).getD value = found ∧
      (grouped = true → snapshot grouped taken pc component_index value = some (pc, found)) := by
  by_cases hzero : component_index = 0
  · obtain rfl := hfirst hzero
    cases grouped with
    | false => exact ⟨rfl, nofun⟩
    | true =>
      have htaken : snapshot true taken pc component_index value = some (pc, value) := by
        unfold snapshot
        rw [if_pos rfl]
        split
        · rw [if_pos (.inr hzero)]
        · rfl
      rw [htaken]
      exact ⟨rfl, fun _ => rfl⟩
  · obtain ⟨rfl, rfl⟩ := hlater hzero
    have hkept : snapshot true (some (pc, found)) pc component_index value = some (pc, found) := by
      simp [snapshot, hzero]
    rw [hkept]
    exact ⟨rfl, fun _ => rfl⟩

theorem scalarLoad_eq_sequential (pc : ℕ) (block : Block) (buffer : Bool) (dst : ScalarDestination)
    (src0 src1 : Operand) (offset : Word) (data_dwords : ℕ) :
    execute lane M pc block (.scalarLoad buffer dst src0 src1 offset data_dwords) =
      sequential (write lane)
        (writes M block.registers (.scalarLoad buffer dst src0 src1 offset data_dwords))
        block.registers := by
  obtain ⟨source, hsource⟩ : ∃ source, source =
      block.registers.readScalarMemorySource buffer src1
        ⟨if buffer then resourceIndexFromOperand src0 else rawScalarLoadBase src0, 0, 0, 0⟩ :=
    ⟨_, rfl⟩
  rw [execute_eq]
  refine (translateAll_range (fun k b => (k = 0 → b.registers = block.registers) ∧
    (k ≠ 0 → 1 < data_dwords → b.scalar_source_snapshot = some (pc, source)))
    ?_ ⟨fun _ => rfl, fun h => absurd rfl h⟩).1
  rintro k b hk ⟨hfirst, hlater⟩
  obtain ⟨memory, hmemory⟩ : ∃ memory : MemoryInfo, memory =
      ⟨if buffer then resourceIndexFromOperand src0 else rawScalarLoadBase src0,
        offset + dwordOffset k, k, data_dwords⟩ := ⟨_, rfl⟩
  have hindex : memory.component_index = k := by rw [hmemory]
  have hcount : memory.component_count = data_dwords := by rw [hmemory]
  obtain ⟨hseen, hkept⟩ := snapshot_seen (decide (1 < memory.component_count))
    b.scalar_source_snapshot pc memory.component_index
    (b.registers.readScalarMemorySource buffer src1 memory) source
    (fun h => by rw [hsource, hmemory, hfirst (hindex ▸ h)]; rfl)
    (fun h => by
      rw [hindex] at h
      have hgroup : 1 < data_dwords := by omega
      exact ⟨by simpa [hcount] using hgroup, hlater h hgroup⟩)
  have hkept' (hgroup : 1 < data_dwords) := hkept (by simpa [hcount] using hgroup)
  cases buffer with
  | false | true =>
    simp only [Bool.false_eq_true, if_false, if_true] at hmemory ⊢
    rw [← hmemory]
    simp only [translateInstruction, hseen]
    refine ⟨?_, fun h => absurd h (succ_ne_zero k), fun _ => hkept'⟩
    rw [hsource, hmemory]
    rfl

theorem readBufferAddress_eq (vaddr : ℕ) (src2 : Operand) (idxen offen : Bool) :
    r.readBufferAddress (lowerBufferAddressSources vaddr src2 idxen offen) idxen offen =
      { index := if idxen then r.word (.vector vaddr) else 0
        offset := if offen then r.word (.vector (if idxen then vaddr + 1 else vaddr)) else 0
        soffset := r.readU32 src2 } := by
  cases idxen with
  | false | true =>
    cases offen with
    | false => rfl
    | true => rfl

theorem bufferLoad_eq_sequential (pc : ℕ) (block : Block) (data_bits : ℕ) (data_signed : Bool)
    (vdata vaddr : ℕ) (src1 src2 : Operand) (idxen offen : Bool) (offset : Word)
    (data_dwords format_components : ℕ) (component_offset : ℕ → Word) :
    execute lane M pc block (.bufferLoad data_bits data_signed vdata vaddr src1 src2 idxen offen
        offset data_dwords format_components component_offset) =
      sequential (write lane)
        (writes M block.registers (.bufferLoad data_bits data_signed vdata vaddr src1 src2 idxen
          offen offset data_dwords format_components component_offset)) block.registers := by
  obtain ⟨address, haddress⟩ : ∃ address, address = block.registers.readBufferAddress
      (lowerBufferAddressSources vaddr src2 idxen offen) idxen offen := ⟨_, rfl⟩
  rw [execute_eq]
  -- a component that the format lacks ends the group
  refine (translateAll_range (fun k b => (k = 0 → b.registers = block.registers) ∧
    (k ≠ 0 → k < format_components → 1 < data_dwords →
      b.buffer_address_snapshot = some (pc, address)))
    ?_ ⟨fun _ => rfl, fun h => absurd rfl h⟩).1
  rintro k b hk ⟨hfirst, hlater⟩
  rw [offsetDecodedRegister_vector]
  by_cases hformat : format_components ≤ k
  · simp only [hformat, if_true, translateInstruction]
    exact ⟨trivial, fun h => absurd h (succ_ne_zero k), fun _ h => absurd h (by omega)⟩
  · obtain ⟨memory, hmemory⟩ : ∃ memory : MemoryInfo, memory =
        ⟨resourceIndexFromOperand src1, offset + component_offset k, k, data_dwords⟩ := ⟨_, rfl⟩
    have hindex : memory.component_index = k := by rw [hmemory]
    have hcount : memory.component_count = data_dwords := by rw [hmemory]
    have hle : loadCount data_bits data_dwords ≤ 1 ∨
        loadCount data_bits data_dwords = data_dwords := by
      unfold loadCount
      split
      · exact .inr rfl
      · exact .inl (Nat.le_refl 1)
    obtain ⟨hseen, hkept⟩ := snapshot_seen (decide (1 < memory.component_count))
      b.buffer_address_snapshot pc memory.component_index
      (b.registers.readBufferAddress (lowerBufferAddressSources vaddr src2 idxen offen) idxen offen)
      address
      (fun h => by rw [haddress, hfirst (hindex ▸ h)])
      (fun h => by
        rw [hindex] at h
        have hgroup : 1 < data_dwords := by omega
        exact ⟨by simpa [hcount] using hgroup, hlater h (by omega) hgroup⟩)
    have hkept' (hgroup : 1 < data_dwords) := hkept (by simpa [hcount] using hgroup)
    simp only [hformat, if_false]
    rw [← hmemory]
    simp only [translateInstruction, hseen]
    refine ⟨?_, fun h => absurd h (succ_ne_zero k), fun _ _ => hkept'⟩
    rw [haddress, readBufferAddress_eq, hmemory]

theorem dsReads_eq_sequential (pc : ℕ) (block : Block) (data_bits : ℕ) (data_signed gds : Bool)
    (vdst vaddr n : ℕ) (memory : ℕ → MemoryInfo) :
    (translateAll lane M pc block ((range n).map fun i =>
        .dsRead data_bits data_signed gds (.vector (vdst + i)) (.register (.vector vaddr))
          (memory i))).registers =
      sequential (write lane)
        (dsReads M data_bits data_signed gds vdst vaddr (fun i => (memory i).offset) n)
        block.registers :=
  (translateAll_range (fun _ _ => True) (fun _ _ _ _ => ⟨rfl, trivial⟩) trivial).1

/-- **An instruction is lowered to its writes, made in sequence.** -/
theorem execute_eq_sequential (pc : ℕ) (block : Block) (decoded : Decoded) :
    execute lane M pc block decoded =
      sequential (write lane) (writes M block.registers decoded) block.registers := by
  cases decoded with
  | scalarLoad buffer dst src0 src1 offset data_dwords =>
    exact scalarLoad_eq_sequential pc block buffer dst src0 src1 offset data_dwords
  | bufferLoad data_bits data_signed vdata vaddr src1 src2 idxen offen offset data_dwords
      format_components component_offset =>
      exact bufferLoad_eq_sequential pc block data_bits data_signed vdata vaddr src1 src2 idxen
        offen offset data_dwords format_components component_offset
  | dsRead data_bits data_signed gds vdst vaddr offset data_dwords =>
    rw [execute_eq]
    simp only [lower, offsetDecodedRegister_vector]
    exact dsReads_eq_sequential pc block data_bits data_signed gds vdst vaddr _
      fun i => ⟨0, offset + dwordOffset i, i, data_dwords⟩
  | dsRead2 gds vdst vaddr offset secondary_offset dwords_per_read =>
    have hlower : lower (.dsRead2 gds vdst vaddr offset secondary_offset dwords_per_read) =
        (range (dwords_per_read + dwords_per_read)).map fun i =>
          .dsRead 32 false gds (.vector (vdst + i)) (.register (.vector vaddr))
            ⟨0, read2Offset offset secondary_offset dwords_per_read i, 0, 1⟩ := by
      rw [range_add, map_append, map_map]
      simp only [lower, flatMap_cons, flatMap_nil, append_nil, offsetDecodedRegister_vector]
      congr 1
      · refine map_congr_left fun i hi => ?_
        simp [read2Offset, mem_range.mp hi]
      · refine map_congr_left fun i hi => ?_
        have hsecond : ¬ dwords_per_read + i < dwords_per_read := by omega
        simp [read2Offset, hsecond]
    rw [execute_eq, hlower]
    exact dsReads_eq_sequential pc block 32 false gds vdst vaddr _ _
  | minMax op dst src0 src1 => rfl

/-! ## The writes of an instruction that meets -/

theorem pairwise_range {β : Type} {f : ℕ → β} {R : β → β → Prop}
    (h : ∀ i j, i < j → j < n → R (f i) (f j)) : ((range n).map f).Pairwise R := by
  rw [pairwise_map]
  refine .imp_of_mem ?_ (pairwise_lt_range (n := n))
  exact fun _ hj hlt => h _ _ hlt (mem_range.mp hj)

variable {offset : ℕ → Word}

theorem dsReads_pairwise {data_bits : ℕ} {data_signed gds : Bool} {vdst vaddr : ℕ}
    (h : ∀ j, j + 1 < n → vaddr ≠ vdst + j) :
    (dsReads M data_bits data_signed gds vdst vaddr offset n).Pairwise (Overlooks (write lane)) := by
  refine pairwise_range fun i j hij hj v r => ?_
  have hne : vector vaddr ≠ .vector (vdst + i) := by
    simpa using h i (by omega)
  dsimp only
  rw [word_write_vector hne]

theorem writes_pairwise {decoded : Decoded} (h : Meets decoded)
    (hkind : ∀ op dst src0 src1, decoded ≠ .minMax op dst src0 src1) :
    (writes M s decoded).Pairwise (Overlooks (write lane)) := by
  cases decoded with
  | scalarLoad => exact pairwise_range fun _ _ _ _ _ _ => rfl
  | bufferLoad =>
    refine pairwise_range fun i j hij hj v r => ?_
    dsimp only
    rw [getBufferResource_write_vector]
  | dsRead | dsRead2 => exact dsReads_pairwise h
  | minMax op dst src0 src1 => exact absurd rfl (hkind op dst src0 src1)

/-! ## Minimum and maximum -/

theorem ScalarDestination.ne_scc (dst : ScalarDestination) : dst.reg ≠ .scc := by
  obtain ⟨reg, code, hdecoded⟩ := dst
  rintro rfl
  unfold decodeScalarDestination at hdecoded
  split at hdecoded
  · nomatch hdecoded
  · split at hdecoded <;> nomatch hdecoded

theorem write_scalar (dst : ScalarDestination) (hnull : dst.reg ≠ .null) (value : Word) :
    write lane dst.reg value r = { r with word := update r.word dst.reg value } := by
  obtain ⟨reg, code, hdecoded⟩ := dst
  unfold decodeScalarDestination at hdecoded
  split at hdecoded
  · cases hdecoded
    rfl
  · split at hdecoded
    · cases hdecoded
      rfl
    · cases hdecoded
      rfl
    · cases hdecoded
      rfl
    · cases hdecoded
      exact absurd rfl hnull
    · cases hdecoded
      rfl
    · cases hdecoded
      rfl
    · nomatch hdecoded

theorem readU32_write_of_ne (dst : ScalarDestination) (value : Word)
    (h : src ≠ .register dst.reg ∨ dst.reg = .null) :
    (write lane dst.reg value r).readU32 src = r.readU32 src := by
  by_cases hnull : dst.reg = .null
  · rw [hnull]
    rfl
  · have hne := h.resolve_right hnull
    rw [write_scalar dst hnull]
    cases src with
    | immediateU32 imm => rfl
    | register reg =>
      have hreg : reg ≠ dst.reg := fun heq => hne (heq ▸ rfl)
      cases reg with
      | null | scc => rfl
      | _ => exact update_of_ne hreg _ _

theorem ScalarDestination.readU32 (dst : ScalarDestination) (hnull : dst.reg ≠ .null) :
    r.readU32 (.register dst.reg) = r.word dst.reg := by
  have hscc := dst.ne_scc
  generalize dst.reg = reg at hnull hscc
  cases reg with
  | null => exact absurd rfl hnull
  | scc => exact absurd rfl hscc
  | _ => rfl

theorem readU32_write_self (dst : ScalarDestination) (hnull : dst.reg ≠ .null) (value : Word) :
    (write lane dst.reg value r).readU32 (.register dst.reg) = value := by
  rw [write_scalar dst hnull, dst.readU32 hnull]
  exact update_self _ _ _

theorem MinMax.test_apply_left (op : MinMax) (a b : Word) :
    op.test (op.apply a b) b = op.test a b := by
  unfold apply
  split
  · rfl
  · cases op <;> simp_all [test, BitVec.slt, BitVec.ult]

theorem MinMax.test_self (op : MinMax) (a : Word) : op.test a a = false := by
  cases op <;> simp [test, BitVec.slt, BitVec.ult]

theorem readU32_constant {a : Word} (h : src.constant? = some a) : r.readU32 src = a := by
  cases src with
  | immediateU32 imm => exact Option.some.inj h
  | register reg =>
    cases reg with
    | null => exact Option.some.inj h
    | _ => nomatch h

variable {op : MinMax}

theorem minMax_simultaneous (h : Meets (.minMax op dst src0 src1)) (pc : ℕ) (block : Block) :
    execute lane M pc block (.minMax op dst src0 src1) =
      architecture lane M (.minMax op dst src0 src1) block.registers := by
  obtain ⟨s, hs⟩ : ∃ s, s = block.registers := ⟨_, rfl⟩
  obtain ⟨value, hvalue⟩ : ∃ value, value = op.apply (s.readU32 src0) (s.readU32 src1) := ⟨_, rfl⟩
  have hsame : op.test ((write lane dst.reg value s).readU32 src0)
      ((write lane dst.reg value s).readU32 src1) =
      op.test (s.readU32 src0) (s.readU32 src1) := by
    by_cases hnull : dst.reg = .null
    · rw [readU32_write_of_ne dst value (.inr hnull), readU32_write_of_ne dst value (.inr hnull)]
    by_cases hsecond : src1 = .register dst.reg
    · rcases h hsecond with hnull' | rfl | ⟨a, hconstant, hnever⟩
      · exact absurd hnull' hnull
      · rw [test_self, test_self]
      · have hread (r : Registers) : r.readU32 src0 = a := readU32_constant hconstant
        rw [hread, hread, hnever, hnever]
    · rw [readU32_write_of_ne dst value (.inl hsecond)]
      by_cases hfirst : src0 = .register dst.reg
      · rw [hfirst, readU32_write_self dst hnull, hvalue, ← hfirst, test_apply_left]
      · rw [readU32_write_of_ne dst value (.inl hfirst)]
  have hexecute : execute lane M pc block (.minMax op dst src0 src1) =
      write lane .scc (if op.test ((write lane dst.reg value s).readU32 src0)
        ((write lane dst.reg value s).readU32 src1) then 1 else 0)
        (write lane dst.reg value s) := by
    rw [hvalue, hs]
    rfl
  rw [hexecute, hsame, hvalue, hs]
  rfl

/-! ## The writes of an instruction that does not -/

/-- Assignments to successive vector registers. -/
def vectorWrites (vdst : ℕ) (value : ℕ → Registers → Word) (n : ℕ) : List Write :=
  (List.range n).map fun i => ⟨.vector (vdst + i), value i⟩

section VectorWrites

variable {vdst : ℕ} {value : ℕ → Registers → Word}

theorem sequential_vectorWrites_succ (n : ℕ) :
    sequential (write lane) (vectorWrites vdst value (n + 1)) s =
      write lane (.vector (vdst + n))
        (value n (sequential (write lane) (vectorWrites vdst value n) s))
        (sequential (write lane) (vectorWrites vdst value n) s) := by
  unfold vectorWrites
  rw [range_succ, map_append, sequential_append]
  rfl

theorem exec_vectorWrites (n : ℕ) :
    (sequential (write lane) (vectorWrites vdst value n) s).exec lane = s.exec lane := by
  induction n with
  | zero => rfl
  | succ n ih => rw [sequential_vectorWrites_succ, exec_write_vector, ih]

theorem word_vectorWrites (hexec : s.exec lane = true) {k : ℕ} (hk : k < n) :
    (sequential (write lane) (vectorWrites vdst value n) s).word (.vector (vdst + k)) =
      value k (sequential (write lane) (vectorWrites vdst value k) s) := by
  induction n with
  | zero => exact absurd hk (not_lt_zero k)
  | succ n ih =>
    rw [sequential_vectorWrites_succ]
    rcases Nat.lt_succ_iff_lt_or_eq.mp hk with hlt | rfl
    · have hne : vector (vdst + k) ≠ .vector (vdst + n) := by
        intro heq
        injection heq with hindex
        omega
      rw [word_write_vector hne, ih hlt]
    · exact word_write_vector_self ((exec_vectorWrites k).trans hexec)

theorem word_vectorWrites_of_le {k : ℕ} (hk : n ≤ k) :
    (sequential (write lane) (vectorWrites vdst value n) s).word (.vector (vdst + k)) =
      s.word (.vector (vdst + k)) := by
  induction n with
  | zero => rfl
  | succ n ih =>
    have hne : vector (vdst + k) ≠ .vector (vdst + n) := by
      intro heq
      injection heq with hindex
      omega
    rw [sequential_vectorWrites_succ, word_write_vector hne, ih (le_of_succ_le hk)]

end VectorWrites

/-- Registers whose lanes are all active, and that hold zero otherwise. -/
def activeRegisters : Registers where
  word reg := if reg = .execLo then 1 else 0
  scc := false

theorem activeRegisters_exec : activeRegisters.exec 0 = true := by decide

/-- A memory that holds something in LDS and GDS only. -/
def sharedMemory (f : Word → Word) : Memory where
  address _ _ _ _ := 0
  constBuffer _ _ _ := 0
  buffer _ _ _ _ _ _ := 0
  shared _ _ := f

theorem exists_shared (p q : Word) : ∃ f : Word → Word, f (f p + q) ≠ f q := by
  obtain ⟨x, hx, hzero, hthree⟩ : ∃ x : Word, x + q ≠ p ∧ x ≠ 0 ∧ x ≠ 3 := by
    by_cases h : 1 + q = p
    · refine ⟨2, fun h' => ?_, by decide, by decide⟩
      have hsame : (1 : Word) + q = 2 + q := h.trans h'.symm
      nomatch ((BitVec.add_left_inj q).mp hsame)
    · exact ⟨1, h, by decide, by decide⟩
  have hshift : q ≠ x + q := fun h => hzero (by simpa using h.symm)
  refine ⟨fun w => if w = p then x else if w = x + q then 3 else 0, ?_⟩
  simp only [if_pos trivial, if_neg hx]
  by_cases hq : q = p
  · rw [if_pos hq]
    exact fun h => hthree h.symm
  · rw [if_neg hq, if_neg hshift]
    decide

theorem dsReads_separated (data_signed gds : Bool) {vdst j : ℕ} (hj : j + 1 < n) :
    ∃ M : Memory,
      sequential (write 0) (dsReads M 32 data_signed gds vdst (vdst + j) offset n)
          activeRegisters ≠
        simultaneous (write 0) (dsReads M 32 data_signed gds vdst (vdst + j) offset n)
          activeRegisters := by
  obtain ⟨f, hf⟩ := exists_shared (offset j) (offset (j + 1))
  refine ⟨sharedMemory f, fun h => hf ?_⟩
  obtain ⟨M, hM⟩ : ∃ M, M = sharedMemory f := ⟨_, rfl⟩
  rw [← hM, simultaneous_eq_sequential] at h
  have hword := congrArg (fun r => r.word (.vector (vdst + (j + 1)))) h
  obtain ⟨value, hvalue⟩ : ∃ value : ℕ → Registers → Word, value = fun i r =>
      widenSubdword 32 data_signed (M.shared gds 32 (r.word (.vector (vdst + j)) + offset i)) :=
    ⟨_, rfl⟩
  have hreads : dsReads M 32 data_signed gds vdst (vdst + j) offset n =
      vectorWrites vdst value n := by rw [hvalue]; rfl
  have hknown : (vectorWrites vdst value n).map
        (fun a => (⟨a.dst, fun _ => a.value activeRegisters⟩ : Write)) =
      vectorWrites vdst (fun i _ => value i activeRegisters) n := by
    unfold vectorWrites
    rw [map_map]
    rfl
  -- one after the other, the address is what the read before has found
  rw [hreads, hknown, word_vectorWrites activeRegisters_exec hj,
    word_vectorWrites activeRegisters_exec hj, hvalue] at hword
  dsimp only at hword
  rw [word_vectorWrites activeRegisters_exec (Nat.lt_succ_self j),
    word_vectorWrites_of_le (Nat.le_refl j)] at hword
  have haddress : activeRegisters.word (.vector (vdst + j)) = 0 := rfl
  simpa [widenSubdword, haddress, hM, sharedMemory] using hword

theorem exists_test (hnull : dst.reg ≠ .null) (hne : src0 ≠ .register dst.reg)
    (hconstant : ∀ a, src0.constant? = some a → ∃ b, op.test a b = true) :
    ∃ s : Registers, op.test (s.readU32 src0) (s.readU32 (.register dst.reg)) = true := by
  have hpair (op : MinMax) : ∃ a b : Word, (a = 0 ∨ a = 1) ∧ op.test a b = true := by
    cases op with
    | minI32 | minU32 => exact ⟨0, 1, .inl rfl, by decide⟩
    | maxI32 | maxU32 => exact ⟨1, 0, .inr rfl, by decide⟩
  obtain ⟨a, b, htest, hread⟩ : ∃ a b : Word, op.test a b = true ∧ ∀ r : Registers,
      (∀ reg, reg ≠ dst.reg → r.word reg = a) → (r.scc = (a != 0)) → r.readU32 src0 = a := by
    cases hkind : src0.constant? with
    | some a =>
      obtain ⟨b, hb⟩ := hconstant a hkind
      exact ⟨a, b, hb, fun r _ _ => readU32_constant hkind⟩
    | none =>
      obtain ⟨a, b, hbit, hb⟩ := hpair op
      refine ⟨a, b, hb, fun r hword hscc => ?_⟩
      cases src0 with
      | immediateU32 imm => nomatch hkind
      | register reg =>
        have hreg : reg ≠ dst.reg := fun heq => hne (heq ▸ rfl)
        cases reg with
        | null => nomatch hkind
        | scc =>
          unfold Registers.readU32
          rw [hscc]
          rcases hbit with rfl | rfl <;> rfl
        | _ => exact hword _ hreg
  refine ⟨⟨fun reg => if reg = dst.reg then b else a, a != 0⟩, ?_⟩
  rw [hread _ (fun reg hreg => if_neg hreg) rfl]
  have hsecond : (⟨fun reg => if reg = dst.reg then b else a, a != 0⟩ : Registers).readU32
      (.register dst.reg) = b := by
    rw [dst.readU32 hnull]
    exact if_pos rfl
  rw [hsecond]
  exact htest

theorem minMax_separated (lane : ℕ) (M : Memory) (h : ¬ Meets (.minMax op dst src0 src1)) :
    ∃ s : Registers, (sequential (write lane) (writes M s (.minMax op dst src0 src1)) s).scc ≠
      (simultaneous (write lane) (writes M s (.minMax op dst src0 src1)) s).scc := by
  obtain ⟨rfl, hnull, hne, hconstant⟩ : src1 = .register dst.reg ∧ dst.reg ≠ .null ∧
      src0 ≠ src1 ∧ ∀ a, src0.constant? = some a → ∃ b, op.test a b = true := by
    unfold Meets at h
    push Not at h
    simpa using h
  obtain ⟨s, htest⟩ := exists_test hnull hne hconstant
  refine ⟨s, ?_⟩
  obtain ⟨value, hvalue⟩ : ∃ value, value =
    op.apply (s.readU32 src0) (s.readU32 (.register dst.reg)) := ⟨_, rfl⟩
  have hfirst : value = s.readU32 src0 := by
    rw [hvalue]
    exact if_pos htest
  have hsequential : (sequential (write lane)
      (writes M s (.minMax op dst src0 (.register dst.reg))) s).scc =
      ((if op.test ((write lane dst.reg value s).readU32 src0)
        ((write lane dst.reg value s).readU32 (.register dst.reg)) then (1 : Word) else 0) != 0) := by
    rw [hvalue]
    rfl
  have hsimultaneous : (simultaneous (write lane)
      (writes M s (.minMax op dst src0 (.register dst.reg))) s).scc =
      ((if op.test (s.readU32 src0) (s.readU32 (.register dst.reg)) then (1 : Word) else 0) != 0) :=
    rfl
  rw [hsequential, hsimultaneous, readU32_write_of_ne dst value (.inl hne),
    readU32_write_self dst hnull, hfirst, test_self, htest]
  decide

/-! ## Reads before writes -/

/-- **A lowered instruction reads all of its sources before it writes.** For any registers,
memory, lane and snapshots the translator leaves what the architecture does, if and only if
no source is read again behind a write to it. -/
theorem lowered_reads_simultaneous (decoded : Decoded) :
    (∀ (lane : ℕ) (M : Memory) (pc : ℕ) (block : Block),
        execute lane M pc block decoded = architecture lane M decoded block.registers) ↔
      Meets decoded := by
  constructor
  · intro h
    have hseparated : ∀ (lane : ℕ) (M : Memory) (s : Registers),
        sequential (write lane) (writes M s decoded) s =
          simultaneous (write lane) (writes M s decoded) s := by
      intro lane M s
      rw [← architecture_eq, ← h lane M 0 ⟨s, none, none⟩, execute_eq_sequential]
    cases decoded with
    | scalarLoad | bufferLoad => trivial
    | dsRead data_bits data_signed gds vdst vaddr offset data_dwords =>
      rintro j hj rfl
      obtain rfl : data_bits = 32 := by
        by_contra hbits
        rw [loadCount, if_neg hbits] at hj
        omega
      obtain ⟨M, hM⟩ := dsReads_separated data_signed gds hj
      exact hM (hseparated 0 M activeRegisters)
    | dsRead2 gds vdst vaddr offset secondary_offset dwords_per_read =>
      rintro j hj rfl
      obtain ⟨M, hM⟩ := dsReads_separated false gds hj
      exact hM (hseparated 0 M activeRegisters)
    | minMax op dst src0 src1 =>
      by_contra hmeets
      obtain ⟨s, hs⟩ := minMax_separated 0 (sharedMemory id) hmeets
      exact hs (congrArg Registers.scc (hseparated 0 _ s))
  · intro h lane M pc block
    cases decoded with
    | minMax op dst src0 src1 => exact minMax_simultaneous h pc block
    | scalarLoad | bufferLoad | dsRead | dsRead2 =>
      rw [execute_eq_sequential, architecture_eq]
      exact sequential_eq_simultaneous (writes_pairwise h (fun _ _ _ _ heq => nomatch heq))

/-- A read of two dwords into the registers that hold its address. -/
theorem lowered_reads_overwritten :
    ¬ ∀ (decoded : Decoded) (lane : ℕ) (M : Memory) (pc : ℕ) (block : Block),
        execute lane M pc block decoded = architecture lane M decoded block.registers := by
  intro h
  have hmemory := h (.dsRead 32 false false 0 0 0 2) 0
    (sharedMemory fun a => a + 8) 0 ⟨activeRegisters, none, none⟩
  exact nomatch (congrArg (fun r => r.word (.vector 1)) hmemory)

end MagnusPS5.Shader.LoweredReads
