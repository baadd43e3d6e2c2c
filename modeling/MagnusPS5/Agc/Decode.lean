/-
What `ProcessPm4` does at dwords that are a packet.
-/
import MagnusPS5.Agc.Packets

namespace MagnusPS5.Agc

open Graphics.Pm4 Lib List CommandProcessor BitVec Packet ContextStateOperation Option

variable {S : Type*} {cp : CommandProcessor S} {execute : S → Request → Option S} {s : S}

/-- The dwords are in the memory at an address. -/
def At (cp : CommandProcessor S) (s : S) (address : ℕ) (dwords : List (BitVec 32)) : Prop :=
  ∀ i < dwords.length, cp.word s (address + 4 * i) = dwords.getD i 0

variable {address n dw num_dw count : ℕ} {dwords : List (BitVec 32)} {predicated : Bool}
  {mode : BitVec 32}

section Reads

section

variable (h : At cp s address dwords)

include h

theorem At.header (hpos : 0 < dwords.length) : cp.word s address = dwords.getD 0 0 := h 0 hpos

theorem At.dword {i : ℕ} (hi : i < dwords.tail.length) :
    cp.dword s (address + 4) i = dwords.tail.getD i 0 := by
  rw [length_tail] at hi
  have hword := h (i + 1) (by omega)
  rw [CommandProcessor.dword, show address + 4 + 4 * i = address + 4 * (i + 1) by ring, hword]
  simp [getD_eq_getElem?_getD]

/-- What a handler reads behind the header. -/
theorem At.payload (hn : dwords.length = n + 1) : cp.dwords s (address + 4) n = dwords.tail := by
  have htail : dwords.tail.length = n := by rw [length_tail, hn, Nat.add_sub_cancel]
  apply ext_getElem
  · rw [htail]
    simp [CommandProcessor.dwords]
  · intro i hi htaili
    have hword := h.dword htaili
    rw [List.getD_eq_getElem _ _ htaili] at hword
    simp [CommandProcessor.dwords, hword]

end

end Reads

/-! ## Handlers -/

section Handlers

variable {cmd_id : BitVec 32} {buffer : ℕ} {takes : BitVec 32 → (ℕ → BitVec 32) → Bool}
  {headers : List (BitVec 32 × ℕ)}

theorem fixed_answer (hheader : headers.lookup cmd_id = some count)
    (htakes : takes cmd_id (cp.dword s buffer) = true) :
    cp.fixed headers takes s cmd_id buffer dw num_dw = cp.runs s cmd_id buffer count := by
  unfold fixed
  rw [hheader]
  dsimp only
  rw [if_neg (by rw [htakes]; decide)]

theorem fixed_refused (hheader : headers.lookup cmd_id = some count)
    (htakes : takes cmd_id (cp.dword s buffer) = false) :
    cp.fixed headers takes s cmd_id buffer dw num_dw = .exit := by
  unfold fixed
  rw [hheader]
  dsimp only
  rw [if_pos htakes]

theorem sized_answer {code : BitVec 32 → Bool} {lengths : ℕ → Bool}
    (hcode : code cmd_id = true) (hlength : lengths (KYTY_PM4_LEN cmd_id) = true)
    (htakes : takes cmd_id (cp.dword s buffer) = true) :
    cp.sized code lengths takes s cmd_id buffer dw num_dw =
      cp.runs s cmd_id buffer (KYTY_PM4_LEN cmd_id - 1) := by
  unfold sized
  rw [if_neg (by rw [hcode]; decide), if_neg (by rw [hlength]; decide),
    if_neg (by rw [htakes]; decide)]

end Handlers

theorem copies_eq (word : ℕ → BitVec 32) : copies word = (readCopyData word).taken := by
  unfold copies CopyData.taken CopyData.reference_clock_dst
  dsimp only [readCopyData]
  by_cases hsize : (word 0 >>> 16) &&& (0x1 : BitVec 32) ≠ 0
  · have hbit : (word 0 >>> 16) &&& 0x1#32 ≠ 0 := hsize
    simp only [if_pos hsize, if_pos hbit]
    rfl
  · have hbit : ¬ (word 0 >>> 16) &&& 0x1#32 ≠ 0 := hsize
    simp only [if_neg hsize, if_neg hbit]
    rfl

theorem asks_one (request : Request) (count : ℕ) :
    asks execute s [request] count =
      match serve execute s request with
      | none => .exit
      | some s' => .ran s' count := by
  unfold asks
  rw [foldlM_cons]
  cases serve execute s request <;> rfl

theorem passed_over_asks {buffer : ℕ → BitVec 32} (h : DmaDataPassedOver buffer) (count : ℕ) :
    asks execute s [.DmaData (readDmaData buffer)] count = .ran s count := by
  obtain ⟨hcontrol, hdst, hcontrol2⟩ := h
  have hwait : buffer 5 >>> 30 = 0#32 := by
    rw [show (30 : ℕ) = 21 + 9 from rfl, shiftRight_add, hcontrol2]
    decide
  have hconfirm : buffer 5 >>> 31 = 0#32 := by
    rw [show (31 : ℕ) = 21 + 10 from rfl, shiftRight_add, hcontrol2]
    decide
  rw [asks_one]
  unfold serve readDmaData
  dsimp only
  rw [hcontrol, hdst, hwait, hconfirm]
  by_cases hbytes : buffer 5 &&& 0x03ffffff#32 = 0
  · rw [if_neg (by decide), if_pos hbytes]
  · rw [if_neg (by decide), if_neg hbytes, if_neg (by decide), if_pos (by decide)]

/-! ## The handler of each packet -/

section Kinds

variable {size : ℕ} (hat : At cp s address dwords)

include hat

theorem nop_answer (h : Encodes dwords predicated (.nop size)) :
    (cp.serving execute).CpOpNop s (nop size).header (address + 4) dw num_dw =
      (nop size).answer cp execute s := by
  have hlength := h.length
  have hsized : 2 ≤ size ∧ size ≤ 0x4001 := h.sized
  have hfirst : cp.dword s (address + 4) 0 = dwords.tail.getD 0 0 := by
    apply hat.dword
    rw [length_tail, hlength]
    dsimp only [Packet.size]
    omega
  have hmarker : ¬ cp.dword s (address + 4) 0 &&& 0xffff0000 = 0x68750000 := by
    rw [hfirst]
    exact h.fields
  have hcode : KYTY_PM4_R (nop size).header = R_ZERO := header_code _
  unfold CommandProcessor.CpOpNop
  rw [if_pos hcode, serving_dword, if_neg hmarker, header_size h.sized]
  rfl

theorem dispatch_answer {x y z : BitVec 32}
    (h : Encodes dwords predicated (.dispatch x y z mode)) :
    (cp.serving execute).CpOpDispatchDirect s (dispatch x y z mode).header (address + 4) dw
        num_dw = (dispatch x y z mode).answer cp execute s := by
  have hlen := header_size h.sized
  have hop := header_opcode (.dispatch x y z mode)
  unfold CommandProcessor.CpOpDispatchDirect
  rw [sized_answer (by rw [hop]; rfl) (by rw [hlen]; rfl) rfl, hlen]
  apply runs_serving
  have hpayload : cp.dwords s (address + 4) 4 = [x, y, z, mode] :=
    (hat.payload h.length).trans h.fields
  change cp.requestsOf s _ (cp.dwords s (address + 4) 4) = _
  rw [hpayload, requestsOf, hop]
  rfl

theorem dispatchIndirect_answer {data_offset : BitVec 32}
    (h : Encodes dwords predicated (.dispatchIndirect data_offset mode)) :
    (cp.serving execute).CpOpDispatchIndirect s (dispatchIndirect data_offset mode).header
        (address + 4) dw num_dw =
      (dispatchIndirect data_offset mode).answer cp execute s := by
  have hheader : (dispatchIndirect data_offset mode).header = 0xC0011600#32 := by
    change KYTY_PM4 3#32 IT_DISPATCH_INDIRECT 0 = _
    decide
  have hpayload : cp.dwords s (address + 4) 2 = [data_offset, mode] :=
    (hat.payload h.length).trans h.fields
  have hlookup : [((0xC0011600 : BitVec 32), 2), (0xC0021600, 3)].lookup 0xC0011600#32 =
      some 2 := by
    decide
  unfold CommandProcessor.CpOpDispatchIndirect
  rw [hheader, fixed_answer hlookup rfl]
  apply runs_serving
  rw [hpayload]
  rfl

theorem dispatchIndirectAt_answer {args_addr : BitVec 64}
    (h : Encodes dwords predicated (.dispatchIndirectAt args_addr mode)) :
    (cp.serving execute).CpOpDispatchIndirect s (dispatchIndirectAt args_addr mode).header
        (address + 4) dw num_dw =
      (dispatchIndirectAt args_addr mode).answer cp execute s := by
  have hheader : (dispatchIndirectAt args_addr mode).header = 0xC0021600#32 := by
    change KYTY_PM4 4#32 IT_DISPATCH_INDIRECT 0 = _
    decide
  have hfields : dwords.tail = [low args_addr, high args_addr, mode] := h.fields
  have hpayload : cp.dwords s (address + 4) 3 = [low args_addr, high args_addr, mode] :=
    (hat.payload h.length).trans hfields
  have hlow : cp.dword s (address + 4) 0 = low args_addr := by
    rw [hat.dword (by simp [hfields]), hfields]
    rfl
  have hhigh : cp.dword s (address + 4) 1 = high args_addr := by
    rw [hat.dword (by simp [hfields]), hfields]
    rfl
  have hlookup : [((0xC0011600 : BitVec 32), 2), (0xC0021600, 3)].lookup 0xC0021600#32 =
      some 3 := by
    decide
  unfold CommandProcessor.CpOpDispatchIndirect
  dsimp only [answer]
  rw [hheader]
  by_cases hnull : args_addr = 0
  · rw [if_pos hnull, fixed_refused hlookup]
    rw [serving_dword, hlow, hhigh, hnull]
    decide
  · rw [if_neg hnull, fixed_answer hlookup]
    · apply runs_serving
      rw [hpayload]
      change some [Request.DispatchDirect (cp.dword s (high args_addr ++ low args_addr).toNat 0)
        (cp.dword s (high args_addr ++ low args_addr).toNat 1)
        (cp.dword s (high args_addr ++ low args_addr).toNat 2) mode
        (high args_addr ++ low args_addr)] = _
      rw [high_low]
    · rw [serving_dword, hlow, hhigh]
      have hone := not_and_or.mp (mt split_eq_zero.mp hnull)
      simpa using hone

theorem predication_answer {args : Predication}
    (h : Encodes dwords predicated (.predication args)) :
    (cp.serving execute).CpOpSetPredication s (predication args).header (address + 4) dw
        num_dw = (predication args).answer cp execute s := by
  have hlen := header_size h.sized
  have hop := header_opcode (.predication args)
  have hfields : readPredication 3 (dwords.tail.getD · 0) = args := h.fields
  unfold CommandProcessor.CpOpSetPredication
  rw [sized_answer (by rw [hop]; rfl) (by rw [hlen]; rfl) rfl, hlen]
  apply runs_serving
  change cp.requestsOf s _ (cp.dwords s (address + 4) 3) = _
  rw [hat.payload h.length, requestsOf, hop, hlen, ← hfields]
  rfl

theorem copy_answer {args : CopyData} (h : Encodes dwords predicated (.copy args)) :
    (cp.serving execute).CpOpCopyData s (copy args).header (address + 4) dw num_dw =
      (copy args).answer cp execute s := by
  have hheader : (copy args).header = 0xC0044000#32 := by
    change KYTY_PM4 6#32 IT_COPY_DATA 0 = _
    decide
  have hlookup : [((0xC0044000 : BitVec 32), 5)].lookup 0xC0044000#32 = some 5 := by decide
  have hlength : dwords.tail.length = 5 := by
    rw [length_tail, h.length]
    rfl
  have hfields : readCopyData (dwords.tail.getD · 0) = args := h.fields
  have hread : readCopyData (cp.dword s (address + 4)) = args := by
    rw [← hfields]
    unfold readCopyData
    rw [hat.dword (by omega), hat.dword (by omega), hat.dword (by omega), hat.dword (by omega),
      hat.dword (by omega)]
  have htaken : copies (cp.dword s (address + 4)) = args.taken := by
    rw [copies_eq, hread]
  unfold CommandProcessor.CpOpCopyData
  dsimp only [answer]
  rw [hheader]
  by_cases hsupported : args.taken = true
  · rw [if_pos hsupported, fixed_answer hlookup (htaken.trans hsupported)]
    apply runs_serving
    rw [hat.payload h.length, ← hfields]
    rfl
  · rw [Bool.not_eq_true] at hsupported
    rw [if_neg (by rw [hsupported]; decide), fixed_refused hlookup (htaken.trans hsupported)]

theorem dma_answer {args : DmaData} (h : Encodes dwords predicated (.dma args)) :
    (cp.serving execute).CpOpDmaData s (dma args).header (address + 4) dw num_dw =
      (dma args).answer cp execute s := by
  have hheader : (dma args).header = 0xC0055000#32 := by
    change KYTY_PM4 7#32 IT_DMA_DATA 0 = _
    decide
  have hlookup : [((0xC0055000 : BitVec 32), 6)].lookup 0xC0055000#32 = some 6 := by decide
  have hfields : readDmaData (dwords.tail.getD · 0) = args := h.fields
  unfold CommandProcessor.CpOpDmaData
  dsimp only [answer]
  rw [hheader, fixed_answer hlookup rfl]
  have hrequests : cp.requestsOf s 0xC0055000#32 (cp.dwords s (address + 4) 6) =
      some (if DmaDataPassedOver (dwords.tail.getD · 0) then [] else [.DmaData args]) := by
    rw [hat.payload h.length, ← hfields]
    rfl
  rw [runs_serving cp execute hrequests]
  by_cases hpassed : DmaDataPassedOver (dwords.tail.getD · 0)
  · -- the command processor does nothing with it either
    rw [if_pos hpassed, ← hfields]
    exact (passed_over_asks hpassed 6).symm
  · rw [if_neg hpassed]

theorem write_answer {dst : BitVec 64} {data : List (BitVec 32)} {control : WriteControl}
    (h : Encodes dwords predicated (.write dst data control)) :
    (cp.serving execute).CpOpWriteData s (write dst data control).header (address + 4) dw
        num_dw = (write dst data control).answer cp execute s := by
  have hlen := header_size h.sized
  have hop := header_opcode (.write dst data control)
  obtain ⟨hdst, hdata, hcontrol⟩ := h.fields
  have hlength : dwords.length = 3 + data.length + 1 := by
    rw [h.length]
    dsimp only [size]
    omega
  have hcount : .ofNat 32 (reg_num (write dst data control).header) - 2#32 =
      .ofNat 32 data.length := by
    have hreg : reg_num (write dst data control).header = data.length + 2 := by
      rw [KYTY_PM4_LEN_eq] at hlen
      dsimp only [size] at hlen
      omega
    rw [hreg, ofNat_add, add_sub_cancel]
  have hpayload : (write dst data control).size - 1 = 3 + data.length := by
    dsimp only [size]
    omega
  unfold CommandProcessor.CpOpWriteData
  rw [sized_answer (by rw [hop]; rfl) rfl rfl, hlen, hpayload]
  apply runs_serving
  rw [hat.payload hlength, requestsOf, hop]
  change some [Request.WriteData (dwords.tail.getD 2 0 ++ dwords.tail.getD 1 0) (dwords.tail.drop 3)
    (.ofNat 32 (reg_num (write dst data control).header) - 2#32)
    (readWriteControl (dwords.tail.getD 0 0))] = _
  rw [hdst, hdata, hcontrol, hcount]

theorem rewind_answer {valid : Bool} (h : Encodes dwords predicated (.rewind valid)) :
    (cp.serving execute).CpOpRewind s (rewind valid).header (address + 4) dw num_dw =
      (rewind valid).answer cp execute s := by
  have hheader : (rewind valid).header = 0xC0005900#32 := by
    change KYTY_PM4 2#32 IT_REWIND 0 = _
    decide
  have hfields : dwords.tail = [if valid then 0x80000000#32 else 0#32] := h.fields
  have hstate : cp.dword s (address + 4) 0 = if valid then 0x80000000#32 else 0#32 := by
    rw [hat.dword (by simp [hfields]), hfields]
    rfl
  unfold CommandProcessor.CpOpRewind waits
  rw [hheader, serving_dword]
  simp only [hstate]
  cases valid <;> rfl

theorem contextState_answer {operation : ContextStateOperation}
    (h : Encodes dwords predicated (.contextState operation size)) :
    (cp.serving execute).CpOpNop s (contextState operation size).header (address + 4) dw
        num_dw = (contextState operation size).answer cp execute s := by
  have hlen := header_size h.sized
  have hop := header_opcode (.contextState operation size)
  have hcode : KYTY_PM4_R (contextState operation size).header = R_CONTEXT_STATE :=
    header_code _
  have hsize : size = 3 ∨ size = 5 := h.sized
  have hfields : dwords.tail.getD 0 0 = operation.word := h.fields
  have hlength : dwords.length = size - 1 + 1 := by
    rw [h.length]
    dsimp only [Packet.size]
    omega
  have hoperation : cp.dword s (address + 4) 0 = operation.word := by
    rw [hat.dword (by rw [length_tail, hlength]; omega), hfields]
  have hlookup : (cp.serving execute).g_cp_op_custom_func.lookup R_CONTEXT_STATE =
      some (cp.serving execute).CpOpContextState := rfl
  unfold CommandProcessor.CpOpNop
  rw [hcode, if_neg (show ¬ R_CONTEXT_STATE = R_ZERO by decide), hlookup]
  dsimp only
  unfold CommandProcessor.CpOpContextState
  rw [sized_answer (by rw [hcode]; rfl), hlen]
  · apply runs_serving
    change cp.requestsOf s _ (cp.dwords s (address + 4) (size - 1)) = _
    rw [hat.payload hlength, requestsOf, hop, hcode]
    change (ofWord (dwords.tail.getD 0 0)).map _ = _
    rw [hfields, ofWord_eq_some.mpr rfl]
    rfl
  · rw [hlen]
    rcases hsize with rfl | rfl <;> rfl
  · rw [serving_dword, hoperation]
    cases operation <;> decide

/-! ### Indirect buffers -/

theorem branch_answer {args : Branch} (h : Encodes dwords predicated (.branch args)) :
    (cp.serving execute).processor.CpOpIndirectBuffer s (branch args).header (address + 4) dw
        num_dw = (branch args).answer cp execute s := by
  have hlen : KYTY_PM4_LEN (branch args).header = 14 := header_size h.sized
  have hlength : dwords.tail.length = 13 := by
    rw [length_tail, h.length]
    rfl
  have hword {i : ℕ} (hi : i < 13) :
      (cp.serving execute).processor.dword s (address + 4) i = dwords.tail.getD i 0 :=
    hat.dword (by omega)
  have hfields : readBranch (dwords.tail.getD · 0) = args := h.fields
  unfold Processor.CpOpIndirectBuffer Processor.CpOpBranch
  rw [if_pos hlen, hlen]
  simp (disch := decide) only [hword]
  rw [← hfields]
  rfl

theorem jump_answer {target : BitVec 64}
    (h : Encodes dwords predicated (.jump target size)) :
    (cp.serving execute).processor.CpOpIndirectBuffer s (jump target size).header
        (address + 4) dw num_dw = (jump target size).answer cp execute s := by
  have hlen : KYTY_PM4_LEN (jump target size).header = 4 := header_size h.sized
  have hlength : dwords.tail.length = 3 := by
    rw [length_tail, h.length]
    rfl
  have hword {i : ℕ} (hi : i < 3) :
      (cp.serving execute).processor.dword s (address + 4) i = dwords.tail.getD i 0 :=
    hat.dword (by omega)
  obtain ⟨htarget, hsize⟩ := h.fields
  unfold Processor.CpOpIndirectBuffer
  rw [if_neg (by rw [hlen]; decide), if_neg (by rw [hlen]; decide)]
  dsimp only [answer]
  rw [hword (by decide), hword (by decide), hword (by decide), hsize]
  unfold Processor.qword
  rw [htarget]

end Kinds

/-! ## Packets -/

section Packets

variable {p : Packet}

/-- **The handler of a packet** answers what the packet asks for. -/
theorem handler_answer (h : Encodes dwords predicated p) (hat : At cp s address dwords)
    (dw num_dw : ℕ) :
    ∃ handler, (cp.serving execute).processor.g_cp_op_func p.opcode = some handler ∧
      handler s p.header (address + 4) dw num_dw = p.answer cp execute s := by
  cases p with
  | nop size => exact ⟨_, rfl, nop_answer hat h⟩
  | dispatch x y z mode => exact ⟨_, rfl, dispatch_answer hat h⟩
  | dispatchIndirect data_offset mode => exact ⟨_, rfl, dispatchIndirect_answer hat h⟩
  | dispatchIndirectAt args_addr mode => exact ⟨_, rfl, dispatchIndirectAt_answer hat h⟩
  | branch args => exact ⟨_, rfl, branch_answer hat h⟩
  | jump target size => exact ⟨_, rfl, jump_answer hat h⟩
  | predication args => exact ⟨_, rfl, predication_answer hat h⟩
  | dma args => exact ⟨_, rfl, dma_answer hat h⟩
  | copy args => exact ⟨_, rfl, copy_answer hat h⟩
  | write dst data control => exact ⟨_, rfl, write_answer hat h⟩
  | rewind valid => exact ⟨_, rfl, rewind_answer hat h⟩
  | contextState operation size => exact ⟨_, rfl, contextState_answer hat h⟩

theorem Packet.opcode_ne_zero (p : Packet) : p.opcode ≠ 0 := by
  cases p <;> dsimp only [opcode] <;> decide

/-- **What `ProcessPm4` does at a packet.** -/
theorem Encodes.read (h : Encodes dwords predicated p) (hat : At cp s address dwords)
    {remaining_dw total_dw : ℕ} (hfits : p.size ≤ remaining_dw) (htotal : remaining_dw ≤ total_dw) :
    (cp.serving execute).processor.packet s address remaining_dw total_dw =
      if predicated = true ∧ cp.ShouldSkipPredicatedPackets s = true then .skip p.size
      else .handled (p.answer cp execute s) := by
  have htwo := h.sized.two_le.1
  have hword : cp.word s address = p.header ||| (if predicated then 1#32 else 0#32) := by
    rw [hat.header (by rw [h.length]; omega), h.header]
  have hplain := unpredicated p.header_bit predicated
  have hbit := predicate_bit p.header_bit predicated
  generalize p.header ||| (if predicated then 1#32 else 0#32) = header at hword hplain hbit
  have hop : opcodeOf header = p.opcode := by
    rw [← opcodeOf_unpredicated, hplain, p.header_opcode]
  have hlen : KYTY_PM4_LEN header = p.size := by
    rw [KYTY_PM4_LEN_eq, ← reg_num_unpredicated, hplain, ← KYTY_PM4_LEN_eq, header_size h.sized]
  have hfiller : header ≠ 0x80000000#32 := by
    rintro rfl
    exact p.opcode_ne_zero (hop.symm.trans (by decide))
  obtain ⟨handler, hhandler, hanswer⟩ :
      ∃ handler, (cp.serving execute).processor.g_cp_op_func p.opcode = some handler ∧
        handler s p.header (address + 4) remaining_dw total_dw = p.answer cp execute s :=
    handler_answer h hat remaining_dw total_dw
  have hone : header &&& 1#32 ≠ 0 ↔ predicated = true := by
    rw [hbit]
    cases predicated <;> decide
  unfold Processor.packet
  rw [show (cp.serving execute).processor.word s address = header from hword]
  rw [if_neg (by omega), if_neg hfiller, if_neg (by omega)]
  have hskips : (cp.serving execute).processor.ShouldSkipPredicatedPackets s =
      cp.ShouldSkipPredicatedPackets s := rfl
  have hopcode : (header >>> 8) &&& 0xff#32 = p.opcode := hop
  rw [hskips, hopcode, hhandler]
  by_cases hskip : predicated = true ∧ cp.ShouldSkipPredicatedPackets s = true
  · rw [if_pos hskip, if_pos ⟨hone.mpr hskip.1, hskip.2⟩, hlen, if_neg (by omega)]
  · rw [if_neg hskip, if_neg fun h => hskip ⟨hone.mp h.1, h.2⟩, hplain]
    exact congrArg Processor.Outcome.handled hanswer

theorem asks_dwords {requests : List Request}
    (h : (asks execute s requests count).dwords = some n) : n = count := by
  unfold asks at h
  split at h
  · simp at h
  · exact (some.inj h).symm

theorem branchAnswer_dwords {b : Branch} (h : (branchAnswer cp s b).dwords = some n) : n = 13 := by
  unfold branchAnswer at h
  dsimp only at h
  -- the process stops, or the branch is taken or not
  repeat' split at h
  all_goals first
    | exact (some.inj h).symm
    | simp at h

/-- A handler that comes back returns the dwords behind the header. -/
theorem answer_dwords (hsized : p.Sized) (h : (p.answer cp execute s).dwords = some n) :
    n + 1 = p.size := by
  have htwo := hsized.two_le.1
  cases p with
  | nop size =>
    cases h
    dsimp only [Packet.size] at htwo ⊢
    omega
  | dispatch | dispatchIndirect | predication | dma => rw [asks_dwords h]; rfl
  | dispatchIndirectAt args_addr mode =>
    dsimp only [answer] at h
    split_ifs at h
    · simp at h
    · rw [asks_dwords h]
      rfl
  | branch args =>
    rw [branchAnswer_dwords h]
    rfl
  | jump target size =>
    dsimp only [answer] at h
    split_ifs at h
    · exact congrArg (· + 1) (some.inj h).symm
    · simp at h
    · exact congrArg (· + 1) (some.inj h).symm
  | copy args =>
    dsimp only [answer] at h
    split_ifs at h
    · rw [asks_dwords h]
      rfl
    · simp at h
  | write dst data control =>
    rw [asks_dwords h]
    dsimp only [size]
    omega
  | rewind valid => exact congrArg (· + 1) (some.inj h).symm
  | contextState operation size =>
    rw [asks_dwords h]
    dsimp only [Packet.size] at htwo ⊢
    omega

end Packets

end MagnusPS5.Agc
