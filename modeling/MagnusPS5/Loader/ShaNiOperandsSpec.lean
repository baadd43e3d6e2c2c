/-
The decoder of the emulated SHA instructions against the encoding of x86-64.

Behind the opcode bytes stands an operand. What each walk makes of it is stated for every form
of an operand, at any place of the byte sequence; a prefix moves the place by one byte and
extends the registers.
-/
import MagnusPS5.Loader.ShaNiOperands

namespace MagnusPS5.Loader

open Lib.ModRm hiding Byte
open Displacement Nat Rm ShaNiOp Dword

variable {rip : ℕ → Byte} {m : ℕ} {reg : BitVec 3} {rm : Rm}

/-! ## Three bits in a byte -/

theorem setWidth_eq_four : ∀ low : BitVec 3, low.setWidth 8 = 4#8 ↔ low = 4 := by decide

theorem setWidth_eq_five : ∀ low : BitVec 3, low.setWidth 8 = 5#8 ↔ low = 5 := by decide

theorem setWidth_scale : ∀ scale : BitVec 2, (scale.setWidth 8).toNat = scale.toNat := by decide

variable (e : ShaNiEncoding)

theorem prefix_bits (low : BitVec 3) :
    (low.setWidth 8 ||| (e.prefixByte &&& 0x01) <<< 3).toNat = registerNumber e.prefixRex.b low ∧
      (low.setWidth 8 ||| (e.prefixByte &&& 0x02) <<< 2).toNat = registerNumber e.prefixRex.x low ∧
      (low.setWidth 8 ||| (e.prefixByte &&& 0x04) <<< 1).toNat = registerNumber e.prefixRex.r low ∧
      (e.prefixByte &&& 0x02 = 0 ↔ e.prefixRex.x = false) := by
  unfold ShaNiEncoding.prefixByte ShaNiEncoding.prefixRex
  generalize e.rex = rex
  cases rex with
  | none =>
    revert low
    decide
  | some rex =>
    obtain ⟨w, r, x, b⟩ := rex
    revert low w r x b
    decide

theorem rexByte_high : ∀ w r x b, Rex.byte ⟨w, r, x, b⟩ &&& 0xf0 = 0x40 := by decide

/-! ## The length -/

theorem operandEnd_spec (h : StartsWith (rm.bytes reg) fun i => rip (i + m)) :
    shaNiOperandEnd rip m = m + (rm.bytes reg).length := by
  have hzero : 0 + m = m := Nat.zero_add m
  have hone : 0 + 1 + m = m + 1 := by omega
  cases rm with
  | register low =>
    simp only [Rm.bytes, startsWith_cons, hzero] at h
    unfold shaNiOperandEnd
    simp [h.1, modRmByte_mod, Rm.bytes]
  | ripRelative disp =>
    simp only [Rm.bytes, startsWith_cons, hzero] at h
    unfold shaNiOperandEnd
    simp [h.1, modRmByte_mod, modRmByte_rm, Rm.bytes, Dword.bytes]
  | base low disp hlow hrip =>
    have hsib : ¬ low = 4#3 := hlow
    simp only [Rm.bytes, startsWith_cons, hzero] at h
    unfold shaNiOperandEnd
    cases disp with
    | none =>
      have hne : ¬ low = 5#3 := hrip rfl
      simp [h.1, modRmByte_mod, modRmByte_rm, Rm.bytes, Displacement.mod, Displacement.bytes,
        setWidth_eq_four, setWidth_eq_five, hsib, hne]
    | byte b =>
      simp [h.1, modRmByte_mod, modRmByte_rm, Rm.bytes, Displacement.mod, Displacement.bytes,
        setWidth_eq_four, hsib]
    | dword d =>
      simp [h.1, modRmByte_mod, modRmByte_rm, Rm.bytes, Displacement.mod, Displacement.bytes,
        setWidth_eq_four, hsib, Dword.bytes]
  | sib scale index b disp hbase =>
    simp only [Rm.bytes, startsWith_cons, hzero, hone] at h
    have hsib : rip (m + 1) &&& 7#8 = b.setWidth 8 := by
      rw [h.2.1]
      exact modRmByte_rm scale index b
    unfold shaNiOperandEnd
    cases disp with
    | none =>
      have hne : ¬ b = 5#3 := hbase rfl
      simp [h.1, modRmByte_mod, modRmByte_rm, Rm.bytes, Displacement.mod, Displacement.bytes,
        setWidth_eq_five, hsib, hne]
    | byte b =>
      simp [h.1, modRmByte_mod, modRmByte_rm, Rm.bytes, Displacement.mod, Displacement.bytes]
    | dword d =>
      simp [h.1, modRmByte_mod, modRmByte_rm, Rm.bytes, Displacement.mod, Displacement.bytes,
        Dword.bytes]
  | sibNoBase scale index disp =>
    simp only [Rm.bytes, startsWith_cons, hzero, hone] at h
    have hsib : rip (m + 1) &&& 7#8 = 5#8 := by
      rw [h.2.1]
      exact modRmByte_rm scale index 5
    unfold shaNiOperandEnd
    simp [h.1, modRmByte_mod, modRmByte_rm, Rm.bytes, Dword.bytes, hsib]

/-! ## The address -/

theorem displacement32_eq {offset : ℕ} {d : Dword}
    (h : StartsWith d.bytes fun i => rip (i + offset)) :
    displacement32 rip offset = d.value.signExtend 64 := by
  simp only [Dword.bytes, startsWith_cons, Nat.zero_add] at h
  obtain ⟨h0, h1, h2, h3, -⟩ := h
  unfold displacement32 Dword.value
  rw [h0, add_comm offset 3, add_comm offset 2, add_comm offset 1, ← h1, ← h2, ← h3]

theorem sibAddress_spec (gpr : ℕ → BitVec 64) {offset : ℕ}
    {scale : BitVec 2} {index b : BitVec 3} (h : rip offset = sibByte scale index b) (mod : Byte) :
    shaNiSibAddress rip e.prefixByte mod gpr offset =
      if mod ≠ 0 ∨ b ≠ 5 then
        (gpr (registerNumber e.prefixRex.b b) + scaled e.prefixRex gpr scale index,
          offset + 1)
      else
        (scaled e.prefixRex gpr scale index + displacement32 rip (offset + 1),
          offset + 1 + 4) := by
  have hb : rip offset &&& 0x07 = b.setWidth 8 := by
    rw [h]
    exact modRmByte_rm scale index b
  have hi : (rip offset >>> 3) &&& 0x07 = index.setWidth 8 := by
    rw [h]
    exact modRmByte_reg scale index b
  have hs : rip offset >>> 6 = scale.setWidth 8 := by
    rw [h]
    exact modRmByte_mod scale index b
  have hindex : (index.setWidth 8 ≠ 4 ∨ e.prefixByte &&& 0x02 ≠ 0) ↔
      ¬ (index = 4 ∧ e.prefixRex.x = false) := by
    rw [not_and_or, ← (prefix_bits e index).2.2.2, ← setWidth_eq_four]
    rfl
  have hbase : (mod ≠ 0 ∨ b.setWidth 8 ≠ 5) ↔ (mod ≠ 0 ∨ b ≠ 5) :=
    or_congr .rfl (not_congr (setWidth_eq_five b))
  have hscale (x : BitVec 64) : x <<< scale.toNat = x * BitVec.ofNat 64 (2 ^ scale.toNat) := by
    rw [BitVec.shiftLeft_eq_mul_twoPow]
    congr 1
    apply BitVec.eq_of_toNat_eq
    rw [BitVec.toNat_twoPow, BitVec.toNat_ofNat]
  unfold shaNiSibAddress scaled
  simp only [hb, hi, hs, (prefix_bits e _).1, (prefix_bits e _).2.1, setWidth_scale, zero_add,
    hscale]
  by_cases hpart : mod ≠ 0 ∨ b ≠ 5
  · rw [if_pos hpart, if_pos (hbase.mpr hpart), if_pos (hbase.mpr hpart)]
    by_cases hx : index = 4 ∧ e.prefixRex.x = false
    · rw [if_pos hx, if_neg (fun h => hindex.mp h hx), add_zero]
    · rw [if_neg hx, if_pos (hindex.mpr hx)]
  · rw [if_neg hpart, if_neg (fun h => hpart (hbase.mp h)), if_neg (fun h => hpart (hbase.mp h))]
    by_cases hx : index = 4 ∧ e.prefixRex.x = false
    · rw [if_pos hx, if_neg (fun h => hindex.mp h hx)]
    · rw [if_neg hx, if_pos (hindex.mpr hx), zero_add]

theorem resolve_spec (h : StartsWith (rm.bytes reg) fun i => rip (i + m))
    (rip_address : BitVec 64) (gpr : ℕ → BitVec 64) {insn : ShaNiInsn}
    (hrex : insn.rex = e.prefixByte) (hm : insn.modrm_offset = m) :
    resolveShaNiMemoryAddress rip_address rip insn gpr =
      rm.address e.prefixRex gpr (rip_address + .ofNat 64 insn.length) := by
  have hzero : 0 + m = m := zero_add m
  have hone : 0 + 1 + m = m + 1 := by omega
  have hbase (low : BitVec 3) : (low.setWidth 8 ||| (e.prefixByte &&& 1#8) <<< 3).toNat =
      registerNumber e.prefixRex.b low := (prefix_bits e low).1
  unfold resolveShaNiMemoryAddress
  rw [hm, hrex]
  cases rm with
  | register low =>
    simp only [Rm.bytes, startsWith_cons, hzero] at h
    simp [h.1, modRmByte_mod, address]
  | ripRelative disp =>
    simp only [Rm.bytes, startsWith_cons, hzero] at h
    have hdisp : displacement32 rip (m + 1) = disp.value.signExtend 64 :=
      displacement32_eq (by simpa only [add_assoc, add_comm 1] using h.2)
    simp [h.1, modRmByte_mod, modRmByte_rm, address, hdisp]
  | base low disp hlow hrip =>
    have hsib : ¬ low = 4#3 := hlow
    simp only [Rm.bytes, startsWith_cons, hzero] at h
    cases disp with
    | none =>
      have hne : ¬ low = 5#3 := hrip rfl
      simp [h.1, modRmByte_mod, modRmByte_rm, Rm.address, Displacement.mod,
        Displacement.value, setWidth_eq_four, setWidth_eq_five, hsib, hne, hbase low]
    | byte b =>
      have hdisp : rip (m + 1) = b := by simpa [Displacement.bytes, Nat.add_comm] using h.2
      simp [h.1, modRmByte_mod, modRmByte_rm, Rm.address, mod,
        Displacement.value, setWidth_eq_four, hsib, hdisp, hbase low]
    | dword d =>
      have hdisp : displacement32 rip (m + 1) = d.value.signExtend 64 :=
        displacement32_eq (by
          simpa only [Displacement.bytes, Nat.add_assoc, Nat.add_comm 1] using h.2)
      simp [h.1, modRmByte_mod, modRmByte_rm, address, mod,
        Displacement.value, setWidth_eq_four, hsib, hdisp, hbase low]
  | sib scale index b disp hsib =>
    simp only [Rm.bytes, startsWith_cons, hzero, hone] at h
    have haddress := sibAddress_spec e gpr h.2.1
    cases disp with
    | none =>
      have hne : ¬ b = 5#3 := hsib rfl
      simp [h.1, modRmByte_mod, modRmByte_rm, Rm.address, Displacement.mod,
        Displacement.value, haddress, hne]
    | byte d =>
      have hdisp : rip (m + 1 + 1) = d := by
        simpa [Displacement.bytes, Nat.add_comm, Nat.add_left_comm] using h.2.2
      simp [h.1, modRmByte_mod, modRmByte_rm, Rm.address, mod, Displacement.value, haddress, hdisp]
    | dword d =>
      have hdisp : displacement32 rip (m + 1 + 1) = d.value.signExtend 64 :=
        displacement32_eq (by
          simpa only [Displacement.bytes, Nat.add_assoc, Nat.add_comm 1, Nat.reduceAdd,
            add_comm 2] using h.2.2)
      simp [h.1, modRmByte_mod, modRmByte_rm, address, mod, Displacement.value, haddress, hdisp]
  | sibNoBase scale index disp =>
    simp only [Rm.bytes, startsWith_cons, hzero, hone] at h
    have haddress := sibAddress_spec e gpr h.2.1
    have hdisp : displacement32 rip (m + 1 + 1) = disp.value.signExtend 64 :=
      displacement32_eq (by
        simpa only [add_assoc, add_comm 1, Nat.reduceAdd, add_comm 2] using h.2.2)
    simp [h.1, modRmByte_mod, modRmByte_rm, address, haddress, hdisp]

/-! ## Instructions -/

namespace ShaNiEncoding

/-- What the decoder finds of an instruction. -/
def decoded : ShaNiInsn :=
  { escape := e.op.escape
    opcode := e.op.opcode
    imm8 := e.op.immediate.headD 0
    rex := e.prefixByte
    modrm_offset := e.opcodeBytes.length
    length := e.bytes.length }

variable {e : ShaNiEncoding}

theorem operand_of_startsWith (h : StartsWith e.bytes rip) :
    StartsWith (e.rm.bytes e.reg) fun i => rip (i + e.opcodeBytes.length) :=
  ((startsWith_append _ _ _).mp ((startsWith_append _ _ _).mp h).2).1

theorem decode_spec (h : StartsWith e.bytes rip) : decodeShaNiInsn rip = some e.decoded := by
  have hend := operandEnd_spec (operand_of_startsWith h)
  have hlength : e.bytes.length =
      e.opcodeBytes.length + (e.rm.bytes e.reg).length + e.op.immediate.length := by
    simp only [bytes, List.length_append, add_assoc]
  obtain ⟨hopcode, hrest⟩ := (startsWith_append _ _ _).mp h
  have himmediate := ((startsWith_append _ _ _).mp hrest).2
  obtain ⟨rex, op, reg, rm⟩ := e
  unfold decodeShaNiInsn decoded prefixByte
  rw [hlength]
  -- the opcode decides the branch, the prefix only moves the place
  cases rex with
  | none =>
    obtain ⟨h0, h1, h2, -⟩ := hopcode
    simp [opcodeBytes, add_comm] at hend himmediate ⊢
    cases op <;>
      simp_all [escape, opcode, immediate, add_comm]
  | some rex =>
    have hhigh : rex.byte &&& 240#8 = 64#8 := rexByte_high rex.w rex.r rex.x rex.b
    obtain ⟨h0, h1, h2, h3, -⟩ := hopcode
    simp [opcodeBytes, add_comm] at hend himmediate ⊢
    cases op <;>
      simp_all [escape, opcode, immediate, add_comm]

theorem exists_of_opcode (rex : Option Rex) (op : ShaNiOp)
    (h : StartsWith ((rex.map Rex.byte).toList ++ [0x0f, op.escape, op.opcode]) rip) :
    ∃ e : ShaNiEncoding, StartsWith e.bytes rip := by
  have himmediate (s : ℕ → Byte) : ∃ op' : ShaNiOp,
      op'.escape = op.escape ∧ op'.opcode = op.opcode ∧ StartsWith op'.immediate s := by
    cases op with
    | sha1rnds4 _ => exact ⟨.sha1rnds4 (s 0), rfl, rfl, rfl, trivial⟩
    | _ => exact ⟨_, rfl, rfl, trivial⟩
  obtain ⟨reg, rm, hrm⟩ := exists_operand fun i => rip (i + ((rex.map Rex.byte).toList.length + 3))
  obtain ⟨op', hescape, hopcode, hop⟩ := himmediate fun i =>
    rip (i + (rm.bytes reg).length + ((rex.map Rex.byte).toList.length + 3))
  refine ⟨⟨rex, op', reg, rm⟩, ?_⟩
  unfold bytes opcodeBytes
  rw [startsWith_append, hescape, hopcode]
  refine ⟨h, ?_⟩
  rw [startsWith_append]
  constructor
  · simpa using hrm
  · simpa using hop

theorem exists_of_decode {insn : ShaNiInsn} (h : decodeShaNiInsn rip = some insn) :
    ∃ e : ShaNiEncoding, StartsWith e.bytes rip := by
  obtain ⟨rex, hrex⟩ : ∃ rex : Option Rex, StartsWith (rex.map Rex.byte).toList rip ∧
      (rex.map Rex.byte).toList.length = if rip 0 &&& 0xf0 = 0x40 then 1 else 0 := by
    by_cases hhigh : rip 0 &&& 0xf0 = 0x40
    · refine ⟨some ⟨_, _, _, _⟩, ⟨(rexByte_fields _ hhigh).symm, trivial⟩, ?_⟩
      rw [if_pos hhigh]
      rfl
    · refine ⟨none, trivial, ?_⟩
      rw [if_neg hhigh]
      rfl
  obtain ⟨op, hop⟩ : ∃ op : ShaNiOp, StartsWith [0x0f, op.escape, op.opcode] fun i =>
      rip (i + (rex.map Rex.byte).toList.length) := by
    rw [hrex.2]
    unfold decodeShaNiInsn at h
    generalize (if rip 0 &&& 0xf0 = 0x40 then 1 else 0) = offset at h ⊢
    simp only [startsWith_cons, startsWith_nil, and_true, zero_add, add_comm _ offset,
      Nat.reduceAdd]
    by_cases h0 : rip offset = 0x0f
    · rw [if_neg (not_not_intro h0)] at h
      by_cases h1 : rip (offset + 1) = 0x38
      · rw [if_pos h1] at h
        by_cases h2 : rip (offset + 2) ≠ 0xc8 ∧ rip (offset + 2) ≠ 0xc9 ∧ rip (offset + 2) ≠ 0xca ∧
            rip (offset + 2) ≠ 0xcb ∧ rip (offset + 2) ≠ 0xcc ∧ rip (offset + 2) ≠ 0xcd
        · rw [if_pos h2] at h
          cases h
        · simp only [not_and_or, not_not] at h2
          rcases h2 with h2 | h2 | h2 | h2 | h2 | h2
          · exact ⟨.sha1nexte, h0, h1, h2⟩
          · exact ⟨.sha1msg1, h0, h1, h2⟩
          · exact ⟨.sha1msg2, h0, h1, h2⟩
          · exact ⟨.sha256rnds2, h0, h1, h2⟩
          · exact ⟨.sha256msg1, h0, h1, h2⟩
          · exact ⟨.sha256msg2, h0, h1, h2⟩
      · rw [if_neg h1] at h
        by_cases h2 : rip (offset + 1) = 0x3a ∧ rip (offset + 2) = 0xcc
        · exact ⟨.sha1rnds4 0, h0, h2⟩
        · rw [if_neg h2] at h
          cases h
    · rw [if_pos h0] at h
      cases h
  exact exists_of_opcode rex op ((startsWith_append _ _ _).mpr ⟨hrex.1, hop⟩)

theorem registers_spec (h : StartsWith e.bytes rip) :
    (shaNiRegIndex (rip e.decoded.modrm_offset) e.decoded.rex true).toNat =
        registerNumber e.prefixRex.r e.reg ∧
      shaNiModrmIsRegister (rip e.decoded.modrm_offset) = e.rm.isRegister ∧
      ∀ low, e.rm = .register low →
        (shaNiRegIndex (rip e.decoded.modrm_offset) e.decoded.rex false).toNat =
          registerNumber e.prefixRex.b low := by
  obtain ⟨mod, low, hmodrm, hregister⟩ : ∃ mod low,
      rip e.opcodeBytes.length = modRmByte mod e.reg low ∧
        ((mod == 3) = e.rm.isRegister ∧ ∀ r, e.rm = .register r → low = r) := by
    have hstart := operand_of_startsWith h
    generalize e.rm = rm at hstart
    cases rm with
    | register low =>
      exact ⟨3, low, by simpa using hstart.1, rfl, fun r hr => register.inj hr⟩
    | ripRelative disp => exact ⟨0, 5, by simpa using hstart.1, rfl, fun r hr => by cases hr⟩
    | base low disp _ _ =>
      refine ⟨disp.mod, low, by simpa using hstart.1, ?_, fun r hr => by cases hr⟩
      cases disp <;> rfl
    | sib scale index b disp _ =>
      refine ⟨disp.mod, 4, by simpa using hstart.1, ?_, fun r hr => by cases hr⟩
      cases disp <;> rfl
    | sibNoBase scale index disp =>
      exact ⟨0, 4, by simpa using hstart.1, rfl, fun r hr => by cases hr⟩
  have hbyte : ∀ mod reg low, (modRmByte mod reg low &&& 0xc0 == 0xc0) = (mod == 3) := by decide
  refine ⟨?_, ?_, fun r hr => ?_⟩
  · change (shaNiRegIndex (rip e.opcodeBytes.length) e.prefixByte true).toNat = _
    rw [hmodrm, ← (prefix_bits e e.reg).2.2.1, ← modRmByte_reg mod e.reg low]
    rfl
  · change shaNiModrmIsRegister (rip e.opcodeBytes.length) = _
    rw [hmodrm, ← hregister.1, ← hbyte mod e.reg low]
    rfl
  · change (shaNiRegIndex (rip e.opcodeBytes.length) e.prefixByte false).toNat = _
    rw [hmodrm, ← hregister.2 r hr, ← (prefix_bits e low).1, ← modRmByte_rm mod e.reg low]
    rfl

end ShaNiEncoding

/-- `DecodeShaNiInsn`, `ShaNiRegIndex` and `ResolveShaNiMemoryAddress` agree with the encoding,
and what the decoder accepts is an instruction. -/
theorem sha_operands_follow_encoding :
    (∀ (rip : ℕ → Byte) (e : ShaNiEncoding), StartsWith e.bytes rip →
      decodeShaNiInsn rip = some e.decoded ∧
      (shaNiRegIndex (rip e.decoded.modrm_offset) e.decoded.rex true).toNat =
        registerNumber e.prefixRex.r e.reg ∧
      shaNiModrmIsRegister (rip e.decoded.modrm_offset) = e.rm.isRegister ∧
      (∀ low, e.rm = .register low →
        (shaNiRegIndex (rip e.decoded.modrm_offset) e.decoded.rex false).toNat =
          registerNumber e.prefixRex.b low) ∧
      ∀ rip_address gpr, resolveShaNiMemoryAddress rip_address rip e.decoded gpr =
        e.rm.address e.prefixRex gpr (rip_address + BitVec.ofNat 64 e.bytes.length)) ∧
    ∀ (rip : ℕ → Byte) (insn : ShaNiInsn), decodeShaNiInsn rip = some insn →
      ∃ e : ShaNiEncoding, StartsWith e.bytes rip ∧ insn = e.decoded := by
  constructor
  · intro rip e h
    obtain ⟨hreg, hisRegister, hlow⟩ := ShaNiEncoding.registers_spec h
    exact ⟨ShaNiEncoding.decode_spec h, hreg, hisRegister, hlow, fun rip_address gpr =>
      resolve_spec e (ShaNiEncoding.operand_of_startsWith h) rip_address gpr rfl rfl⟩
  · intro rip insn h
    obtain ⟨e, he⟩ := ShaNiEncoding.exists_of_decode h
    have hdecode := ShaNiEncoding.decode_spec he
    exact ⟨e, he, Option.some.inj (h.symm.trans hdecode)⟩

/-- `sha256rnds2` with an extended index, where `4` is a register. -/
theorem sha_operands_follow_encoding_indexed :
    ∃ rip insn, decodeShaNiInsn rip = some insn ∧ insn.length = 7 ∧
      resolveShaNiMemoryAddress 0 rip insn (fun i => BitVec.ofNat 64 i) = some 40 := by
  let e : ShaNiEncoding := ⟨some ⟨false, false, true, false⟩, .sha256rnds2, 1,
    .sib 2 4 0 (.byte 0xf8) (by decide)⟩
  let rip : ℕ → Byte := fun i => e.bytes.getD i 0
  have h : StartsWith e.bytes rip := ⟨rfl, rfl, rfl, rfl, rfl, rfl, rfl, trivial⟩
  obtain ⟨hdecode, -, -, -, haddress⟩ := sha_operands_follow_encoding.1 rip e h
  refine ⟨rip, e.decoded, hdecode, rfl, ?_⟩
  rw [haddress]
  decide

end MagnusPS5.Loader
