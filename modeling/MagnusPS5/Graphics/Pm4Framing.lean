/-
Where a packet ends, and where `ProcessPm4` goes on after it.

A packet is a filler dword, or a type-3 header with `KYTY_PM4_LEN` dwords. A handler of registers
that takes all values of its packet, and whole packets after it, is `Framed`; a handler of an
opcode that takes its packet is `Plain`. What is left are three opcodes whose handlers take one
value of some registers whatever the packet has, and `CpOpCondExec`, which passes over as many
dwords as the guest says. `Counted` is the condition under which these end at a packet.
-/
import MagnusPS5.Graphics.Pm4Handlers
import MagnusPS5.Lib.Framing
import Mathlib

namespace MagnusPS5.Graphics.Pm4

open Lib Option Answer List Processor.Outcome Processor

/-- The dwords of a packet with this first dword; none where no packet starts with it. -/
def headerSize (header : BitVec 32) : Option ℕ :=
  if header = 0x80000000#32 then some 1
  else if header >>> 30 = 3#32 then some (KYTY_PM4_LEN header)
  else none

/-- The dwords of the packet at `p`. -/
def packetSize (word : ℕ → BitVec 32) (p : ℕ) : Option ℕ := headerSize (word p)

theorem KYTY_PM4_LEN_eq (header : BitVec 32) : KYTY_PM4_LEN header = reg_num header + 2 := rfl

variable {n p packet dw num_dw d : ℕ} {word : ℕ → BitVec 32} {header : BitVec 32}

theorem headerSize_pos (h : headerSize header = some n) : 0 < n := by
  unfold headerSize at h
  split_ifs at h
  · rw [some.injEq] at h
    omega
  · rw [some.injEq, KYTY_PM4_LEN_eq] at h
    omega

theorem headerSize_one : headerSize header = some 1 ↔ header = 0x80000000#32 := by
  constructor
  · intro h
    by_contra hfiller
    rw [headerSize, if_neg hfiller] at h
    split_ifs at h
    rw [some.injEq, KYTY_PM4_LEN_eq] at h
    omega
  · intro h
    rw [h]
    rfl

theorem packetSize_pos (p n : ℕ) (h : packetSize word p = some n) : 0 < n :=
  headerSize_pos h

theorem whole_header (h : word p = header)
    (hsize : headerSize header = some n) : Whole (packetSize word) p (p + n) := by
  apply Whole.single
  rw [packetSize, h, hsize]

/-! ## Headers without the predicate bit -/

section Headers

variable (header : BitVec 32)

theorem reg_num_unpredicated : reg_num (header &&& ~~~1#32) = reg_num header := by
  have hbits : (header &&& ~~~1#32) >>> 16 = header >>> 16 := by
    ext i hi
    simp only [BitVec.getElem_ushiftRight, BitVec.getLsbD_and, BitVec.getLsbD_not]
    grind
  rw [reg_num, hbits, reg_num]

theorem opcodeOf_unpredicated : opcodeOf (header &&& ~~~1#32) = opcodeOf header := by
  have hbits : (header &&& ~~~1#32) >>> 8 = header >>> 8 := by
    ext i hi
    simp only [BitVec.getElem_ushiftRight, BitVec.getLsbD_and, BitVec.getLsbD_not]
    grind
  rw [opcodeOf, hbits, opcodeOf]

end Headers

variable {S : Type*}

/-- The dwords that a handler returns. -/
def Answer.dwords : Answer S → Option ℕ
  | .exit => none
  | .ran _ dw => some dw
  | .tested _ dw => some dw
  | .entered _ _ dw => some dw

@[simp] theorem Answer.dwords_exit : (exit : Answer S).dwords = none := rfl

@[simp] theorem Answer.dwords_ran (s : S) (dw : ℕ) : (ran s dw).dwords = some dw := rfl

@[simp] theorem Answer.dwords_tested (ok : Bool) (dw : ℕ) :
    (tested ok dw : Answer S).dwords = some dw := rfl

@[simp] theorem Answer.dwords_entered (buffer size_dw dw : ℕ) :
    (entered buffer size_dw dw : Answer S).dwords = some dw := rfl

/-- The dwords from a packet to the place that `ProcessPm4` goes on at after it. -/
def Processor.Outcome.dwords : Processor.Outcome S → Option ℕ
  | .skip dw => some dw
  | .handled answer => answer.dwords.map (· + 1)

/-- A handler of an opcode that takes its packet and no more. -/
def Plain (handler : Handler S) : Prop :=
  ∀ (s : S) (cmd_id : BitVec 32) (buffer dw num_dw n : ℕ),
    (handler s cmd_id buffer dw num_dw).dwords = some n → n + 1 = KYTY_PM4_LEN cmd_id

theorem mem_of_lookup {α β : Type*} [BEq α] [LawfulBEq α] {table : List (α × β)} {key : α} {b : β}
    (h : table.lookup key = some b) : (key, b) ∈ table := by
  rw [lookup_eq_some_iff] at h
  obtain ⟨_, _, heq, _⟩ := h
  rw [heq]
  exact mem_append_right _ mem_cons_self

namespace CommandProcessor

variable (cp : CommandProcessor S)

/-! ## Registers -/

/-- A handler of registers that takes the values of its packet, and whole packets after it. -/
def Framed (pfunc : Parser S) : Prop :=
  ∀ (s : S) (cmd_id : BitVec 32) (cmd_offset buffer dw : ℕ) (s' : S) (count : ℕ),
    pfunc s cmd_id cmd_offset buffer dw = some (s', count) →
      Whole (packetSize (cp.dword s buffer)) (reg_num cmd_id) count

variable {cp}

variable {s s' : S} {cmd_id : BitVec 32} {cmd_offset buffer count size first last : ℕ}
  {pfunc : Parser S}

theorem writes_count
    (h : cp.writes s cmd_id cmd_offset buffer count = some (s', n)) : n = count := by
  unfold writes at h
  rw [map_eq_some_iff] at h
  obtain ⟨_, _, heq⟩ := h
  rw [Prod.mk.injEq] at heq
  exact heq.2.symm

variable {table : ℕ → Option (IndirectFunc S)}

theorem writesEach_count
    (h : cp.writesEach table size s cmd_offset buffer count = some (s', n)) : n = count := by
  unfold writesEach at h
  split_ifs at h
  rw [map_eq_some_iff] at h
  obtain ⟨_, _, heq⟩ := h
  rw [Prod.mk.injEq] at heq
  exact heq.2.symm

theorem exactly_framed {takes : ℕ → Bool}
    (hheader : reg_num header = count) : cp.Framed (cp.exactly header takes count) := by
  intro s cmd_id cmd_offset buffer dw s' n h
  unfold exactly at h
  split_ifs at h with hcmd
  rw [writes_count h, not_not.mp hcmd, hheader]
  exact .nil _

theorem range_framed {takes : ℕ → ℕ → Bool} : cp.Framed (cp.range takes) := by
  intro s cmd_id cmd_offset buffer dw s' n h
  unfold range at h
  split_ifs at h
  rw [writes_count h]
  exact .nil _

theorem between_framed : cp.Framed (cp.between first last) := range_framed

theorem userData_framed : cp.Framed (cp.userData first last) := range_framed

theorem scissor_framed : cp.Framed (cp.scissor first last) := by
  intro s cmd_id cmd_offset buffer dw s' n h
  unfold scissor at h
  split_ifs at h
  rw [writesEach_count h]
  exact .nil _

theorem HwShIgnoreRegisters_framed : cp.Framed HwShIgnoreRegisters := by
  intro s cmd_id cmd_offset buffer dw s' n h
  rw [HwShIgnoreRegisters, some.injEq, Prod.mk.injEq] at h
  rw [← h.2]
  exact .nil _

theorem HwUcSetPrimitiveType_framed : cp.Framed cp.HwUcSetPrimitiveType := by
  intro s cmd_id cmd_offset buffer dw s' n h
  unfold HwUcSetPrimitiveType at h
  split_ifs at h with hcmd
  have hnum : reg_num cmd_id = 1 := by
    -- both headers that it takes have one value
    by_cases hset : cmd_id = 0xC0017900
    · rw [hset]
      rfl
    · have hindex : cmd_id = 0xC0017A00 := by
        by_contra hne
        exact hcmd ⟨hset, hne⟩
      rw [hindex]
      rfl
  rw [writes_count h, hnum]
  exact .nil _

theorem HwCtxSetDepthRenderTarget_framed : cp.Framed cp.HwCtxSetDepthRenderTarget := by
  intro s cmd_id cmd_offset buffer dw s' n h
  unfold HwCtxSetDepthRenderTarget at h
  dsimp only at h
  split_ifs at h with _ hone hbatch hpackets
  · rw [writes_count h, hone]
    exact .nil _
  · obtain ⟨_, hinfo, _, hview, _, hbase, _, hsurface, _, hnop⟩ := hpackets
    rw [writes_count h, hbatch]
    have hregister : headerSize 0xC0016900 = some 3 := by decide
    have hfirst := (whole_header hinfo hregister).trans (whole_header hview hregister)
    have hsecond := (whole_header hbase hregister).trans (whole_header hsurface hregister)
    exact (hfirst.trans hsecond).trans (whole_header (n := 2) hnop (by decide))

theorem HwCtxSetAaSampleControl_framed : cp.Framed cp.HwCtxSetAaSampleControl := by
  intro s cmd_id cmd_offset buffer dw s' n h
  unfold HwCtxSetAaSampleControl at h
  dsimp only at h
  split_ifs at h with hone hbatch _ hpriority
  · rw [writes_count h, hone.1]
    exact .nil _
  · rw [writes_count h, not_not.mp hbatch]
    exact whole_header (n := 4) hpriority.2.1 (by decide)

theorem HwCtxSetRenderTarget_framed : cp.Framed cp.HwCtxSetRenderTarget := by
  intro s cmd_id cmd_offset buffer dw s' n h
  unfold HwCtxSetRenderTarget at h
  dsimp only at h
  split_ifs at h with _ _ hnop
  · rw [writesEach_count h]
    exact .nil _
  · rw [writes_count h]
    exact whole_header hnop.2 (by decide)
  · rw [writes_count h]
    exact .nil _

/-- All context registers have such handlers. -/
theorem g_hw_ctx_func_framed : ∀ entry ∈ cp.g_hw_ctx_func, cp.Framed entry.2 := by
  unfold g_hw_ctx_func
  simp only [forall_mem_cons]
  repeat' apply And.intro
  all_goals first
    | exact range_framed
    | exact exactly_framed rfl
    | exact between_framed
    | exact scissor_framed
    | exact HwCtxSetDepthRenderTarget_framed
    | exact HwCtxSetAaSampleControl_framed
    | exact HwCtxSetRenderTarget_framed
    | exact forall_mem_nil _

theorem g_hw_sh_func_framed : ∀ entry ∈ cp.g_hw_sh_func, cp.Framed entry.2 := by
  unfold g_hw_sh_func
  simp only [forall_mem_cons]
  repeat' apply And.intro
  all_goals first
    | exact range_framed
    | exact userData_framed
    | exact HwShIgnoreRegisters_framed
    | exact forall_mem_nil _

/-- The uconfig registers whose handlers take one value whatever the packet has. -/
def HwUcTakesOneValue (cmd_offset : ℕ) : Bool :=
  cmd_offset ∈ [VGT_INDEX_TYPE, VGT_OBJECT_ID, GE_MULTI_PRIM_IB_RESET_EN, GE_INDX_OFFSET]

/-- So have the uconfig registers, but those that take one value. -/
theorem g_hw_uc_func_framed : ∀ entry ∈ cp.g_hw_uc_func,
    cp.Framed entry.2 ∨ ∃ register, HwUcTakesOneValue register = true ∧ entry.1 = [register] := by
  unfold g_hw_uc_func
  simp only [forall_mem_cons]
  repeat' apply And.intro
  all_goals first
    | exact .inl range_framed
    | exact .inl HwUcSetPrimitiveType_framed
    | exact .inr ⟨_, by decide, rfl⟩
    | exact forall_mem_nil _

theorem parserAt_oneValue (h : HwUcTakesOneValue cmd_offset = true) :
    parserAt cp.g_hw_uc_func cmd_offset = some (cp.single cmd_offset) := by
  simp only [HwUcTakesOneValue, decide_eq_true_eq, mem_cons, not_mem_nil, or_false] at h
  rcases h with rfl | rfl | rfl | rfl <;> rfl

theorem parserAt_mem {table : List (List ℕ × Parser S)}
    (h : parserAt table cmd_offset = some pfunc) :
    ∃ entry ∈ table, cmd_offset ∈ entry.1 ∧ entry.2 = pfunc := by
  unfold parserAt at h
  rw [map_eq_some_iff] at h
  obtain ⟨entry, hfind, heq⟩ := h
  have hmem := mem_of_find?_eq_some hfind
  have hnames := find?_some hfind
  exact ⟨entry, mem_reverse.mp hmem, of_decide_eq_true hnames, heq⟩

theorem parserAt_framed {table : List (List ℕ × Parser S)}
    (htable : ∀ entry ∈ table, cp.Framed entry.2)
    (h : parserAt table cmd_offset = some pfunc) : cp.Framed pfunc := by
  obtain ⟨entry, hmem, _, heq⟩ := parserAt_mem h
  rw [← heq]
  exact htable entry hmem

theorem uconfig_framed (h : parserAt cp.g_hw_uc_func cmd_offset = some pfunc)
    (hone : HwUcTakesOneValue cmd_offset = false) : cp.Framed pfunc := by
  obtain ⟨entry, hmem, hoffset, heq⟩ := parserAt_mem h
  rw [← heq]
  rcases g_hw_uc_func_framed entry hmem with hframed | ⟨register, htakes, hregister⟩
  · exact hframed
  · rw [hregister, mem_singleton] at hoffset
    rw [hoffset, htakes] at hone
    nomatch hone

/-! ## Opcodes -/

theorem runs_dwords (h : (cp.runs s cmd_id buffer count).dwords = some n) : n = count := by
  unfold runs at h
  split at h
  · simp at h
  · rw [dwords_ran, some.injEq] at h
    exact h.symm

variable {takes : BitVec 32 → (ℕ → BitVec 32) → Bool}

theorem fixed_plain {headers : List (BitVec 32 × ℕ)}
    (hheaders : ∀ header ∈ headers, header.2 + 1 = KYTY_PM4_LEN header.1) :
    Plain (cp.fixed headers takes) := by
  intro s cmd_id buffer dw num_dw n h
  unfold fixed at h
  split at h
  · simp at h
  · next count hlookup =>
    split_ifs at h
    · simp at h
    · rw [runs_dwords h]
      exact hheaders _ (mem_of_lookup hlookup)

theorem sized_plain {code : BitVec 32 → Bool} {lengths : ℕ → Bool}
    : Plain (cp.sized code lengths takes) := by
  intro s cmd_id buffer dw num_dw n h
  unfold sized at h
  split_ifs at h
  · simp at h
  · simp at h
  · simp at h
  · rw [runs_dwords h, KYTY_PM4_LEN_eq]
    rfl

theorem waits_plain {takes : (ℕ → BitVec 32) → Bool}
    {ready : S → (ℕ → BitVec 32) → Option Bool} (hheader : KYTY_PM4_LEN header = 2) :
    Plain (cp.waits header takes ready) := by
  intro s cmd_id buffer dw num_dw n h
  unfold waits at h
  split_ifs at h with hcmd
  · simp at h
  · simp at h
  · split at h
    · simp at h
    · rw [dwords_tested, some.injEq] at h
      rw [not_not.mp hcmd, hheader, ← h]

theorem CpOpAcquireMem_plain : Plain (CpOpAcquireMem (S := S)) := by
  intro s cmd_id buffer dw num_dw n h
  unfold CpOpAcquireMem at h
  split_ifs at h with hcmd hcustom
  · simp at h
  · rw [dwords_ran, some.injEq] at h
    rw [hcustom, ← h]
    decide
  · rw [dwords_ran, some.injEq] at h
    have hheader : cmd_id = 0xC0055800 := by
      by_contra hne
      exact hcmd ⟨hne, hcustom⟩
    rw [hheader, ← h]
    decide

theorem CpOpPushMarker_plain : Plain (CpOpPushMarker (S := S)) := by
  intro s cmd_id buffer dw num_dw n h
  rw [CpOpPushMarker, dwords_ran, some.injEq] at h
  rw [← h, KYTY_PM4_LEN_eq]

theorem CpOpWaitRegMem32_plain : Plain cp.CpOpWaitRegMem32 := by
  intro s cmd_id buffer dw num_dw n h
  unfold CpOpWaitRegMem32 at h
  dsimp only at h
  split_ifs at h with _ hlength
  · simp at h
  · simp at h
  · simp at h
  · split at h
    · simp at h
    · rw [dwords_tested, some.injEq] at h
      rw [not_not.mp hlength, ← h]

theorem CpOpWaitRegMem64_plain : Plain cp.CpOpWaitRegMem64 := by
  intro s cmd_id buffer dw num_dw n h
  unfold CpOpWaitRegMem64 at h
  dsimp only at h
  split_ifs at h with _ hlength
  · simp at h
  · simp at h
  · simp at h
  · split at h
    · simp at h
    · rw [dwords_tested, some.injEq] at h
      rw [not_not.mp hlength, ← h]

theorem g_cp_op_custom_func_plain : ∀ entry ∈ cp.g_cp_op_custom_func, Plain entry.2 := by
  unfold g_cp_op_custom_func
  simp only [forall_mem_cons]
  repeat' apply And.intro
  all_goals first
    | exact sized_plain
    | exact fixed_plain (by decide)
    | exact CpOpWaitRegMem32_plain
    | exact CpOpWaitRegMem64_plain
    | exact CpOpAcquireMem_plain
    | exact CpOpPushMarker_plain
    | exact forall_mem_nil _

theorem CpOpNop_plain : Plain cp.CpOpNop := by
  intro s cmd_id buffer dw num_dw n h
  unfold CpOpNop at h
  split_ifs at h
  · exact sized_plain s cmd_id buffer dw num_dw n h
  · rw [dwords_ran, some.injEq] at h
    rw [← h, KYTY_PM4_LEN_eq]
    rfl
  · split at h
    · simp at h
    · next cp_op hlookup =>
      exact g_cp_op_custom_func_plain _ (mem_of_lookup hlookup) s cmd_id buffer dw num_dw n h

/-- The opcodes of register packets. -/
def SetsRegisters (opcode : BitVec 32) : Bool :=
  opcode ∈ [IT_SET_CONTEXT_REG, IT_SET_SH_REG, IT_SET_UCONFIG_REG, IT_SET_UCONFIG_REG_INDEX]

/-- The opcodes that set no registers take their packet and no more. -/
theorem g_cp_op_func_plain :
    ∀ entry ∈ cp.g_cp_op_func, SetsRegisters entry.1 = true ∨ Plain entry.2 := by
  unfold g_cp_op_func
  simp only [forall_mem_cons]
  repeat' apply And.intro
  all_goals first
    | exact .inl rfl
    | exact .inr sized_plain
    | exact .inr (fixed_plain (by decide))
    | exact .inr (waits_plain rfl)
    | exact .inr CpOpNop_plain
    | exact .inr CpOpAcquireMem_plain
    | exact forall_mem_nil _

theorem CpOpBranch_plain (P : Processor S)
    (h : (P.CpOpBranch s cmd_id buffer dw num_dw).dwords = some n) :
    n + 1 = KYTY_PM4_LEN cmd_id := by
  unfold Processor.CpOpBranch at h
  dsimp only at h
  by_cases hlength : KYTY_PM4_LEN cmd_id - 1 ≠ 13
  · rw [if_pos hlength] at h
    simp at h
  · rw [if_neg hlength] at h
    -- it stops, or comes back with the dwords of the packet
    have hn : KYTY_PM4_LEN cmd_id - 1 = n := by
      repeat' split at h
      all_goals simp only [Answer.dwords, reduceCtorEq, Option.some.injEq] at h
      all_goals exact h
    omega

theorem CpOpIndirectBuffer_plain (P : Processor S) : Plain P.CpOpIndirectBuffer := by
  intro s cmd_id buffer dw num_dw n h
  unfold Processor.CpOpIndirectBuffer at h
  dsimp only at h
  split_ifs at h with hbranch hlength
  · exact CpOpBranch_plain P h
  · simp at h
  all_goals
    rw [not_not] at hlength
    simp at h
  all_goals omega

/-! ## Packets of registers -/

/-- A packet of one value, or of none with a filler after it. -/
def OneValue (word : ℕ → BitVec 32) : Prop :=
  reg_num (word 0) = 1 ∨ reg_num (word 0) = 0 ∧ word 2 = 0x80000000#32

theorem whole_three (word : ℕ → BitVec 32) :
    Whole (packetSize word) (reg_num (word 0) + 2) 3 ↔ OneValue word := by
  constructor
  · intro h
    have hle := h.le
    rcases Nat.eq_or_lt_of_le hle with hone | hlt
    · exact .inl (by omega)
    · have hzero : reg_num (word 0) = 0 := by omega
      rw [hzero] at h
      obtain ⟨n, hsize, htail⟩ := h.tail (by decide)
      have hn : n = 1 := by
        have hpos := packetSize_pos _ _ hsize
        have hend := htail.le
        omega
      rw [hn] at hsize
      exact .inr ⟨hzero, headerSize_one.mp hsize⟩
  · rintro (hone | ⟨hzero, hfiller⟩)
    · rw [hone]
      exact .nil _
    · rw [hzero]
      exact whole_header (n := 1) hfiller rfl

theorem dword_add (cp : CommandProcessor S) (s : S) (packet d i : ℕ) :
    cp.dword s (packet + 4 * d) i = cp.dword s packet (d + i) := by
  have haddress : packet + 4 * d + 4 * i = packet + 4 * (d + i) := by omega
  rw [dword, haddress, dword]

theorem whole_dword {e : ℕ} :
    Whole (packetSize (cp.dword s (packet + 4 * d))) p e ↔
      Whole (packetSize (cp.dword s packet)) (d + p) (d + e) := by
  have hsize : packetSize (cp.dword s (packet + 4 * d)) =
      fun p => packetSize (cp.dword s packet) (d + p) := by
    funext p
    rw [packetSize, dword_add, packetSize]
  rw [hsize]
  exact Whole.shift d

theorem whole_values {num : ℕ} (h : Whole (packetSize (cp.dword s (packet + 4 * 2))) num count) :
    Whole (packetSize (cp.dword s packet)) (num + 2) (count + 2) := by
  rw [Nat.add_comm num, Nat.add_comm count]
  exact whole_dword.mp h

variable {result : Option (S × ℕ)}

theorem returned_dwords (h : (returned result).dwords = some n) :
    ∃ s' count, result = some (s', count) ∧ n = count + 1 := by
  unfold returned at h
  split at h
  · simp at h
  · simp at h
  · next s' count =>
    rw [dwords_ran, some.injEq] at h
    exact ⟨s', count + 1, rfl, h.symm⟩

theorem unhandled_dwords (h : (unhandled result).dwords = some n) :
    ∃ s' count, result = some (s', count) ∧ n = count + 1 := by
  unfold unhandled at h
  split at h
  · simp at h
  · next s' count =>
    rw [dwords_ran, some.injEq] at h
    exact ⟨s', count, rfl, h.symm⟩

section RegisterPackets

theorem returned_framed (hpfunc : cp.Framed pfunc)
    (h : (returned (pfunc s cmd_id cmd_offset (packet + 4 + 4) dw)).dwords = some n) :
    Whole (packetSize (cp.dword s packet)) (reg_num cmd_id + 2) (n + 1) := by
  obtain ⟨s', count, hresult, hn⟩ := returned_dwords h
  rw [hn]
  exact whole_values (hpfunc _ _ _ _ _ _ _ hresult)

theorem unhandled_framed (h : (unhandled (cp.writesEach table size s cmd_offset (packet + 4 + 4)
      (reg_num cmd_id))).dwords = some n) :
    Whole (packetSize (cp.dword s packet)) (reg_num cmd_id + 2) (n + 1) := by
  obtain ⟨s', count, hresult, hn⟩ := unhandled_dwords h
  rw [hn, writesEach_count hresult]
  exact .nil _

section

variable (hnum : reg_num cmd_id = reg_num (cp.dword s packet 0))

include hnum

/-- A fake register takes one value, whatever the packet has. -/
theorem CpOpSetContextReg_framed
    (h : (cp.CpOpSetContextReg s cmd_id (packet + 4) dw num_dw).dwords = some n) :
    Whole (packetSize (cp.dword s packet)) (reg_num cmd_id + 2) (n + 1) ↔
      (HwCtxIsFakeRegister (NormalizeRegisterOffset (cp.dword s packet 1)) = true →
        OneValue (cp.dword s packet)) := by
  have hregister : cp.dword s (packet + 4) 0 = cp.dword s packet 1 := dword_add cp s packet 1 0
  unfold CpOpSetContextReg at h
  dsimp only at h
  rw [hregister] at h
  split_ifs at h with hfake
  · rw [dwords_ran, some.injEq] at h
    rw [← h, hnum, whole_three]
    exact ⟨fun hone _ => hone, fun hone => hone hfake⟩
  · simp at h
  · refine iff_of_true ?_ fun hreal => absurd hreal hfake
    split at h
    · exact unhandled_framed h
    · next pfunc hpfunc => exact returned_framed (parserAt_framed g_hw_ctx_func_framed hpfunc) h

theorem CpOpSetShaderReg_framed
    (h : (cp.CpOpSetShaderReg s cmd_id (packet + 4) dw num_dw).dwords = some n) :
    Whole (packetSize (cp.dword s packet)) (reg_num cmd_id + 2) (n + 1) ↔
      ((cp.dword s packet 1).toNat = SH_NOP → OneValue (cp.dword s packet)) := by
  have hregister : cp.dword s (packet + 4) 0 = cp.dword s packet 1 := dword_add cp s packet 1 0
  unfold CpOpSetShaderReg at h
  dsimp only at h
  rw [hregister] at h
  split_ifs at h with hnop
  · rw [dwords_ran, some.injEq] at h
    rw [← h, hnum, whole_three]
    exact ⟨fun hone _ => hone, fun hone => hone hnop⟩
  · simp at h
  · refine iff_of_true ?_ fun hreal => absurd hreal hnop
    split at h
    · simp at h
    · next pfunc hpfunc => exact returned_framed (parserAt_framed g_hw_sh_func_framed hpfunc) h

end

theorem not_fake_of_oneValue (h : HwUcTakesOneValue cmd_offset = true) :
    HwUcIsFakeRegister cmd_offset = false := by
  simp only [HwUcTakesOneValue, decide_eq_true_eq, mem_cons, not_mem_nil, or_false] at h
  rcases h with rfl | rfl | rfl | rfl <;> rfl

theorem CpOpSetUconfigReg_framed (hnum : reg_num cmd_id = reg_num (cp.dword s packet 0))
    (h : (cp.CpOpSetUconfigReg s cmd_id (packet + 4) dw num_dw).dwords = some n) :
    Whole (packetSize (cp.dword s packet)) (reg_num cmd_id + 2) (n + 1) ↔
      (HwUcTakesOneValue (uconfigOffset cmd_id (cp.dword s packet 1)) = true →
        OneValue (cp.dword s packet)) := by
  have hregister : cp.dword s (packet + 4) 0 = cp.dword s packet 1 := dword_add cp s packet 1 0
  unfold CpOpSetUconfigReg at h
  dsimp only at h
  rw [hregister] at h
  generalize uconfigOffset cmd_id (cp.dword s packet 1) = cmd_offset at h ⊢
  by_cases hone : HwUcTakesOneValue cmd_offset = true
  · -- the handler takes one value
    rw [not_fake_of_oneValue hone, if_neg nofun, parserAt_oneValue hone] at h
    split_ifs at h
    · simp at h
    · obtain ⟨s', count, hresult, hn⟩ := returned_dwords h
      simp only [single, ne_eq, not_true_eq_false, if_false] at hresult
      rw [hn, writes_count hresult, hnum, whole_three]
      exact ⟨fun h _ => h, fun h => h hone⟩
  · refine iff_of_true ?_ fun h => absurd h hone
    split_ifs at h
    · rw [dwords_ran, some.injEq] at h
      rw [← h]
      exact .nil _
    · simp at h
    · simp at h
    · split at h
      · exact unhandled_framed h
      · next pfunc hpfunc =>
        exact returned_framed (uconfig_framed hpfunc (by simpa using hone)) h

end RegisterPackets

/-! ## Packets -/

/-- The packet is passed over. -/
def Predicated (cp : CommandProcessor S) (s : S) (packet : ℕ) : Prop :=
  cp.dword s packet 0 &&& 1#32 ≠ 0 ∧ cp.ShouldSkipPredicatedPackets s = true

/-- **Where the handler of a packet ends at the end of a packet.** -/
structure Counted (cp : CommandProcessor S) (s : S) (packet : ℕ) : Prop where
  /-- A fake context register is written alone. -/
  context : opcodeOf (cp.dword s packet 0) = IT_SET_CONTEXT_REG →
    HwCtxIsFakeRegister (NormalizeRegisterOffset (cp.dword s packet 1)) = true →
      OneValue (cp.dword s packet)
  /-- So is the empty shader register. -/
  shader : opcodeOf (cp.dword s packet 0) = IT_SET_SH_REG →
    (cp.dword s packet 1).toNat = SH_NOP → OneValue (cp.dword s packet)
  /-- So are the uconfig registers whose handlers take one value. -/
  uconfig : opcodeOf (cp.dword s packet 0) ∈ [IT_SET_UCONFIG_REG, IT_SET_UCONFIG_REG_INDEX] →
    HwUcTakesOneValue (uconfigOffset (cp.dword s packet 0) (cp.dword s packet 1)) = true →
      OneValue (cp.dword s packet)
  /-- The dwords that a failed condition passes over are packets. -/
  cond_exec : opcodeOf (cp.dword s packet 0) = IT_COND_EXEC →
    cp.word s (Processor.qword (cp.dword s packet 1 &&& 0xfffffffc#32)
      (cp.dword s packet 2)).toNat = 0 →
        Whole (packetSize (cp.dword s packet)) (KYTY_PM4_LEN (cp.dword s packet 0))
          (KYTY_PM4_LEN (cp.dword s packet 0) + (cp.dword s packet 4 &&& 0x3fff#32).toNat)

theorem counted_of_opcode (hregisters : SetsRegisters (opcodeOf (cp.dword s packet 0)) = false)
    (hcond : opcodeOf (cp.dword s packet 0) ≠ IT_COND_EXEC) : cp.Counted s packet := by
  have hnone (opcode : BitVec 32) (hopcode : SetsRegisters opcode = true)
      (heq : opcodeOf (cp.dword s packet 0) = opcode) : False := by
    rw [heq, hopcode] at hregisters
    nomatch hregisters
  constructor
  · exact fun heq => (hnone _ rfl heq).elim
  · exact fun heq => (hnone _ rfl heq).elim
  · intro hmem
    rcases mem_cons.mp hmem with heq | hlast
    · exact (hnone _ rfl heq).elim
    · exact (hnone _ rfl (mem_singleton.mp hlast)).elim
  · exact fun heq => absurd heq hcond

section Handlers

/-- A condition that fails skips dwords, which have to be whole packets. -/
theorem CpOpCondExec_framed (hnum : reg_num cmd_id = reg_num (cp.dword s packet 0))
    (h : (cp.processor.CpOpCondExec s cmd_id (packet + 4) dw num_dw).dwords = some n) :
    Whole (packetSize (cp.dword s packet)) (KYTY_PM4_LEN (cp.dword s packet 0)) (n + 1) ↔
      (cp.word s (Processor.qword (cp.dword s packet 1 &&& 0xfffffffc#32)
        (cp.dword s packet 2)).toNat = 0 →
          Whole (packetSize (cp.dword s packet)) (KYTY_PM4_LEN (cp.dword s packet 0))
            (KYTY_PM4_LEN (cp.dword s packet 0) + (cp.dword s packet 4 &&& 0x3fff#32).toNat)) := by
  have hpayload (i : ℕ) : cp.processor.dword s (packet + 4) i = cp.dword s packet (1 + i) :=
    dword_add cp s packet 1 i
  have hlength : KYTY_PM4_LEN cmd_id = KYTY_PM4_LEN (cp.dword s packet 0) := by
    rw [KYTY_PM4_LEN_eq, hnum, KYTY_PM4_LEN_eq]
  unfold Processor.CpOpCondExec at h
  simp only [hpayload, hlength] at h
  split_ifs at h with _ _ _ _ _ hzero
  · simp at h
  · simp at h
  · simp at h
  · simp at h
  · simp at h
  · have hzero' : cp.word s (Processor.qword (cp.dword s packet 1 &&& 0xfffffffc#32)
        (cp.dword s packet 2)).toNat = 0 := hzero
    rw [dwords_ran, some.injEq] at h
    have hend : n + 1 = KYTY_PM4_LEN (cp.dword s packet 0) +
        (cp.dword s packet 4 &&& 0x3fff#32).toNat := by
      have hcount : (cp.dword s packet (1 + 3) &&& 0x3fff#32).toNat =
        (cp.dword s packet 4 &&& 0x3fff#32).toNat := rfl
      omega
    rw [hend]
    exact ⟨fun h _ => h, fun h => h hzero'⟩
  · rw [dwords_ran, some.injEq] at h
    have hend : n + 1 = KYTY_PM4_LEN (cp.dword s packet 0) := by omega
    rw [hend]
    exact iff_of_true (.nil _) fun hzero' => absurd hzero' hzero

theorem counted_context (h : opcodeOf (cp.dword s packet 0) = IT_SET_CONTEXT_REG) :
    cp.Counted s packet ↔
      (HwCtxIsFakeRegister (NormalizeRegisterOffset (cp.dword s packet 1)) = true →
        OneValue (cp.dword s packet)) := by
  refine ⟨fun hcounted => hcounted.context h, fun hone => ⟨fun _ => hone, ?_, ?_, ?_⟩⟩ <;>
  · rw [h]
    exact nofun

theorem counted_shader (h : opcodeOf (cp.dword s packet 0) = IT_SET_SH_REG) :
    cp.Counted s packet ↔
      ((cp.dword s packet 1).toNat = SH_NOP → OneValue (cp.dword s packet)) := by
  refine ⟨fun hcounted => hcounted.shader h, fun hone => ⟨?_, fun _ => hone, ?_, ?_⟩⟩ <;>
  · rw [h]
    exact nofun

theorem counted_uconfig
    (h : opcodeOf (cp.dword s packet 0) ∈ [IT_SET_UCONFIG_REG, IT_SET_UCONFIG_REG_INDEX]) :
    cp.Counted s packet ↔
      (HwUcTakesOneValue (uconfigOffset (cp.dword s packet 0) (cp.dword s packet 1)) = true →
        OneValue (cp.dword s packet)) := by
  refine ⟨fun hcounted => hcounted.uconfig h, fun hone => ⟨?_, ?_, fun _ => hone, ?_⟩⟩ <;>
  · intro hother
    rw [hother] at h
    nomatch h

theorem counted_cond_exec (h : opcodeOf (cp.dword s packet 0) = IT_COND_EXEC) :
    cp.Counted s packet ↔
      (cp.word s (Processor.qword (cp.dword s packet 1 &&& 0xfffffffc#32)
        (cp.dword s packet 2)).toNat = 0 →
          Whole (packetSize (cp.dword s packet)) (KYTY_PM4_LEN (cp.dword s packet 0))
            (KYTY_PM4_LEN (cp.dword s packet 0) +
              (cp.dword s packet 4 &&& 0x3fff#32).toNat)) := by
  refine ⟨fun hcounted => hcounted.cond_exec h, fun hwhole => ⟨?_, ?_, ?_, fun _ => hwhole⟩⟩ <;>
  · rw [h]
    exact nofun

variable {handler : Handler S}

theorem plain_of_opcode {opcode : BitVec 32}
    (hhandler : cp.processor.g_cp_op_func opcode = some handler) (hcond : opcode ≠ IT_COND_EXEC)
    (hregisters : SetsRegisters opcode = false) : Plain handler := by
  rw [Processor.g_cp_op_func, if_neg hcond] at hhandler
  split_ifs at hhandler
  · rw [← some.inj hhandler]
    exact CpOpIndirectBuffer_plain _
  · refine (g_cp_op_func_plain _ (mem_of_lookup hhandler)).resolve_left ?_
    rw [hregisters]
    exact nofun

/-- **Every handler** goes on at a packet iff what it takes is counted right. -/
theorem handler_framed
    (hhandler : cp.processor.g_cp_op_func (opcodeOf (cp.dword s packet 0)) = some handler)
    (h : (handler s (cp.dword s packet 0 &&& ~~~1#32) (packet + 4) dw num_dw).dwords = some n) :
    Whole (packetSize (cp.dword s packet)) (KYTY_PM4_LEN (cp.dword s packet 0)) (n + 1) ↔
      cp.Counted s packet := by
  have hnum := reg_num_unpredicated (cp.dword s packet 0)
  have hlength : KYTY_PM4_LEN (cp.dword s packet 0) =
    reg_num (cp.dword s packet 0 &&& ~~~1#32) + 2 := by rw [hnum, KYTY_PM4_LEN_eq]
  by_cases hcond : opcodeOf (cp.dword s packet 0) = IT_COND_EXEC
  · rw [hcond] at hhandler
    rw [← some.inj hhandler] at h
    rw [CpOpCondExec_framed hnum h, counted_cond_exec hcond]
  by_cases hregisters : SetsRegisters (opcodeOf (cp.dword s packet 0)) = false
  · -- the handler takes its packet
    have hend := plain_of_opcode hhandler hcond hregisters _ _ _ _ _ _ h
    rw [KYTY_PM4_LEN_eq, ← hlength] at hend
    rw [hend]
    exact iff_of_true (.nil _) (counted_of_opcode hregisters hcond)
  by_cases hcontext : opcodeOf (cp.dword s packet 0) = IT_SET_CONTEXT_REG
  · rw [hcontext] at hhandler
    rw [← some.inj hhandler] at h
    rw [hlength, CpOpSetContextReg_framed hnum h, counted_context hcontext]
  by_cases hshader : opcodeOf (cp.dword s packet 0) = IT_SET_SH_REG
  · rw [hshader] at hhandler
    rw [← some.inj hhandler] at h
    rw [hlength, CpOpSetShaderReg_framed hnum h, counted_shader hshader]
  -- the two opcodes of uconfig registers have one handler
  have huconfig :
      opcodeOf (cp.dword s packet 0) ∈ [IT_SET_UCONFIG_REG, IT_SET_UCONFIG_REG_INDEX] := by
    simp only [SetsRegisters, mem_cons, decide_eq_false_iff_not, not_not] at hregisters
    exact mem_cons.mpr
      ((hregisters.resolve_left hcontext).resolve_left hshader |>.imp_right mem_cons.mpr)
  have hset : cp.CpOpSetUconfigReg = handler := by
    rcases mem_cons.mp huconfig with heq | hlast
    · rw [heq] at hhandler
      exact some.inj hhandler
    · rw [mem_singleton.mp hlast] at hhandler
      exact some.inj hhandler
  have hoffset : uconfigOffset (cp.dword s packet 0 &&& ~~~1#32) (cp.dword s packet 1) =
      uconfigOffset (cp.dword s packet 0) (cp.dword s packet 1) := by
    rw [uconfigOffset, opcodeOf_unpredicated, uconfigOffset]
  rw [← hset] at h
  rw [hlength, CpOpSetUconfigReg_framed hnum h, hoffset, counted_uconfig huconfig]

/-- **After a packet, `ProcessPm4` goes on at the end of a packet just where the packet is
counted, or passed over.** -/
theorem packet_framed {total_dw : ℕ} (hsize : packetSize (cp.dword s packet) 0 = some size)
    (hd : (cp.processor.packet s packet dw total_dw).dwords = some d) :
    Whole (packetSize (cp.dword s packet)) size d ↔
      cp.Predicated s packet ∨ cp.Counted s packet := by
  have hheader : cp.processor.word s packet = cp.dword s packet 0 := rfl
  rw [packetSize] at hsize
  unfold Processor.packet at hd
  simp only [hheader] at hd
  split_ifs at hd with _ hfiller _ hpredicated
  · simp [Processor.Outcome.dwords] at hd
  · -- a filler is one dword, and no opcode asks for more
    rw [hfiller] at hsize
    obtain rfl : 1 = size := some.inj hsize
    obtain rfl : 1 = d := some.inj hd
    refine iff_of_true (.nil _) (.inr (counted_of_opcode ?_ ?_)) <;>
    · rw [hfiller]
      decide
  · simp [Processor.Outcome.dwords] at hd
  · simp [Processor.Outcome.dwords] at hd
  · rw [headerSize, if_neg hfiller] at hsize
    split_ifs at hsize
    obtain rfl : KYTY_PM4_LEN (cp.dword s packet 0) = size := some.inj hsize
    obtain rfl : KYTY_PM4_LEN (cp.dword s packet 0) = d := some.inj hd
    exact iff_of_true (.nil _) (.inl hpredicated)
  · rw [headerSize, if_neg hfiller] at hsize
    split_ifs at hsize
    obtain rfl : KYTY_PM4_LEN (cp.dword s packet 0) = size := some.inj hsize
    split at hd
    · simp [Processor.Outcome.dwords] at hd
    · next handler hhandler =>
      rw [Processor.Outcome.dwords, Option.map_eq_some_iff] at hd
      obtain ⟨n, hreturned, hn⟩ := hd
      rw [← hn, handler_framed hhandler hreturned]
      exact ⟨.inr, fun h => h.resolve_left hpredicated⟩

end Handlers

end CommandProcessor

end MagnusPS5.Graphics.Pm4
