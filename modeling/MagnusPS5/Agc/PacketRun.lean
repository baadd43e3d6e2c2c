/-
Packets that are patched after they were written, and what `ProcessPm4` does at them.

A patch of a packet is a change of one of its values, or of its predicate bit. That the dwords
that a patch leaves encode the changed packet is the step; a packet that was written and patched
any number of times follows from it. A jump patch takes branch packets too, since they have the
same opcode, and changes other values of these.
-/
import MagnusPS5.Agc.Decode
import MagnusPS5.Agc.Encoding

namespace MagnusPS5.Agc

open Graphics.Pm4 Lib BitVec Option List

/-- A patch of a packet. -/
inductive Patch
  | AgcWriteDataPatchSetAddressOrOffset (address_or_offset : BitVec 64)
  | AgcJumpPatchSetTarget (target : BitVec 64) (size_in_dwords : BitVec 32)
  | AgcDmaDataPatchSetDstAddressOrOffset (dst_address_or_offset : BitVec 64)
  | AgcDmaDataPatchSetSrcAddressOrOffsetOrImmediate
      (src_address_or_offset_or_immediate : BitVec 64)
  | AgcRewindPatchSetRewindState (state : BitVec 8)
  | AgcSetPacketPredication (predication : BitVec 32)

namespace Patch

/-- The dwords that a patch leaves; none where it returns an error. -/
def run (cmd : List (BitVec 32)) : Patch → Option (List (BitVec 32))
  | AgcWriteDataPatchSetAddressOrOffset address_or_offset =>
    Agc.AgcWriteDataPatchSetAddressOrOffset cmd address_or_offset
  | AgcJumpPatchSetTarget target size_in_dwords =>
    Agc.AgcJumpPatchSetTarget cmd target size_in_dwords
  | AgcDmaDataPatchSetDstAddressOrOffset dst_address_or_offset =>
    Agc.AgcDmaDataPatchSetDstAddressOrOffset cmd dst_address_or_offset
  | AgcDmaDataPatchSetSrcAddressOrOffsetOrImmediate src_address_or_offset_or_immediate =>
    Agc.AgcDmaDataPatchSetSrcAddressOrOffsetOrImmediate cmd src_address_or_offset_or_immediate
  | AgcRewindPatchSetRewindState state => Agc.AgcRewindPatchSetRewindState cmd state
  | AgcSetPacketPredication predication => some (Agc.AgcSetPacketPredication cmd predication)

/-- The argument is an address below `2 ^ 48`, a size or a state that fits. -/
def Fits : Patch → Prop
  | AgcJumpPatchSetTarget target size_in_dwords =>
    target.toNat < 2 ^ 48 ∧ size_in_dwords.toNat < 2 ^ 20
  | AgcRewindPatchSetRewindState state => state.toNat < 2 ^ 1
  | _ => True

/-- The patch is not a jump patch of a branch. -/
def Suits : Patch → Packet → Prop
  | AgcJumpPatchSetTarget .., .branch _ => False
  | _, _ => True

/-- The value that a patch changes. -/
def apply : Patch → Packet → Packet
  | AgcWriteDataPatchSetAddressOrOffset address_or_offset, .write _ data control =>
    .write address_or_offset data control
  | AgcJumpPatchSetTarget target size_in_dwords, .jump _ _ => .jump target size_in_dwords.toNat
  | AgcDmaDataPatchSetDstAddressOrOffset dst_address_or_offset, .dma args =>
    .dma { args with dst_address_or_offset := dst_address_or_offset }
  | AgcDmaDataPatchSetSrcAddressOrOffsetOrImmediate src_address_or_offset_or_immediate, .dma args =>
    .dma { args with src_address_or_offset_or_immediate := src_address_or_offset_or_immediate }
  | AgcRewindPatchSetRewindState state, .rewind _ => .rewind (state = 1)
  | _, p => p

/-- The predicate bit after a patch. -/
def predicated : Patch → Bool → Bool
  | AgcSetPacketPredication predication, _ => predication.setWidth 8 = 1
  | _, predicated => predicated

end Patch

/-- A jump packet has an address of 48 bits. -/
def Packet.Small : Packet → Prop
  | .jump target _ => target.toNat < 2 ^ 48
  | _ => True

/-! ## One patch -/

variable {dwords dwords' : List (BitVec 32)} {predicated : Bool} {p : Packet} {args : DmaData}
  {patch : Patch}

section Steps

theorem Encodes.patchedOp (h : Encodes dwords predicated p) : patchedOp dwords = p.opcode := by
  rw [Agc.patchedOp, h.header]
  change opcodeOf _ = _
  rw [← opcodeOf_unpredicated, unpredicated p.header_bit, p.header_opcode]

theorem four_dwords (h : 4 ≤ dwords.length) :
    ∃ c0 c1 c2 c3 rest, dwords = c0 :: c1 :: c2 :: c3 :: rest :=
  match dwords, h with
  | c0 :: c1 :: c2 :: c3 :: rest, _ => ⟨c0, c1, c2, c3, rest, rfl⟩

theorem patch_write {dst address_or_offset : BitVec 64} {data : List (BitVec 32)}
    {control : WriteControl} (h : Encodes dwords predicated (.write dst data control))
    (hpatch : AgcWriteDataPatchSetAddressOrOffset dwords address_or_offset = some dwords') :
    Encodes dwords' predicated (.write address_or_offset data control) := by
  obtain ⟨hsized, hlength, hheader, _, hdata, hcontrol⟩ := h
  rw [AgcWriteDataPatchSetAddressOrOffset] at hpatch
  split_ifs at hpatch
  cases hpatch
  have hfour : 4 ≤ dwords.length := by
    rw [hlength]
    exact Nat.le_add_right _ _
  obtain ⟨c0, c1, c2, c3, rest, rfl⟩ := four_dwords hfour
  exact ⟨hsized, hlength, hheader, high_low _, hdata, hcontrol⟩

theorem patch_dma_dst {dst_address_or_offset : BitVec 64}
    (h : Encodes dwords predicated (.dma args))
    (hpatch : AgcDmaDataPatchSetDstAddressOrOffset dwords dst_address_or_offset = some dwords') :
    Encodes dwords' predicated
      (.dma { args with dst_address_or_offset := dst_address_or_offset }) := by
  obtain ⟨hsized, hlength, hheader, hfields⟩ := h
  rw [AgcDmaDataPatchSetDstAddressOrOffset] at hpatch
  split_ifs at hpatch
  cases hpatch
  match dwords, hlength with
  | [c0, c1, c2, c3, c4, c5, c6], hlength =>
    refine ⟨hsized, hlength, hheader, ?_⟩
    obtain rfl : readDmaData ([c1, c2, c3, c4, c5, c6].getD · 0) = args := hfields
    change readDmaData ([c1, c2, c3, low dst_address_or_offset, high dst_address_or_offset,
      c6].getD · 0) = _
    unfold readDmaData
    simp only [getD_cons_zero, getD_cons_succ, high_low]

theorem patch_dma_src {src_address_or_offset_or_immediate : BitVec 64}
    (h : Encodes dwords predicated (.dma args))
    (hpatch : AgcDmaDataPatchSetSrcAddressOrOffsetOrImmediate dwords
      src_address_or_offset_or_immediate = some dwords') :
    Encodes dwords' predicated (.dma { args with
      src_address_or_offset_or_immediate := src_address_or_offset_or_immediate }) := by
  obtain ⟨hsized, hlength, hheader, hfields⟩ := h
  rw [AgcDmaDataPatchSetSrcAddressOrOffsetOrImmediate] at hpatch
  split_ifs at hpatch
  cases hpatch
  match dwords, hlength with
  | [c0, c1, c2, c3, c4, c5, c6], hlength =>
    refine ⟨hsized, hlength, hheader, ?_⟩
    obtain rfl : readDmaData ([c1, c2, c3, c4, c5, c6].getD · 0) = args := hfields
    change readDmaData ([c1, low src_address_or_offset_or_immediate,
      high src_address_or_offset_or_immediate, c4, c5, c6].getD · 0) = _
    unfold readDmaData
    simp only [getD_cons_zero, getD_cons_succ, high_low]

theorem patch_jump {target target' : BitVec 64} {num_dw : ℕ} {size_in_dwords : BitVec 32}
    (h : Encodes dwords predicated (.jump target num_dw)) (hsmall : target.toNat < 2 ^ 48)
    (hfits : (Patch.AgcJumpPatchSetTarget target' size_in_dwords).Fits)
    (hpatch : AgcJumpPatchSetTarget dwords target' size_in_dwords = some dwords') :
    Encodes dwords' predicated (.jump target' size_in_dwords.toNat) := by
  obtain ⟨htarget, hsize⟩ := hfits
  obtain ⟨hsized, hlength, hheader, hwas, _⟩ := h
  rw [AgcJumpPatchSetTarget] at hpatch
  split_ifs at hpatch
  cases hpatch
  obtain ⟨c0, c1, c2, c3, rest, rfl⟩ := four_dwords hlength.ge
  have hwas' : c2 ++ c1 = target := hwas
  have hnum : size_in_dwords &&& 0xfffff#32 = size_in_dwords := and_low (n := 20) hsize (by decide)
  have hhigh : high target' &&& 0xffff#32 = high target' := by
    apply and_low (n := 16) _ (by decide)
    rw [high_toNat]
    omega
  -- the bits that the patch keeps of the address are those above its 48
  have hkept : c2 &&& 0xffff0000#32 = 0#32 := by
    have hsmall2 : c2.toNat < 2 ^ 16 := by
      rw [← hwas', toNat_append, Nat.shiftLeft_eq, Nat.mul_comm,
        ← Nat.two_pow_add_eq_or_of_lt c1.isLt] at hsmall
      omega
    rw [← and_low (n := 16) hsmall2 (by decide), BitVec.and_assoc]
    exact and_zero
  refine ⟨hsized, hlength, hheader, ?_, ?_⟩
  · change ((c2 &&& 0xffff0000#32) ||| (high target' &&& 0xffff#32)) ++ low target' = target'
    rw [hkept, zero_or, hhigh, high_low]
  · change (((c3 &&& 0xfff00000#32) ||| (size_in_dwords &&& 0xfffff#32)) &&& 0xfffff#32).toNat = _
    rw [BitVec.and_or_distrib_right, low_same, hnum, BitVec.and_assoc,
      show 0xfff00000#32 &&& 0xfffff#32 = 0#32 by decide, and_zero, zero_or]

theorem patch_rewind {valid : Bool} {state : BitVec 8}
    (h : Encodes dwords predicated (.rewind valid))
    (hfits : (Patch.AgcRewindPatchSetRewindState state).Fits)
    (hpatch : AgcRewindPatchSetRewindState dwords state = some dwords') :
    Encodes dwords' predicated (.rewind (state = 1)) := by
  obtain ⟨hsized, hlength, hheader, hfields⟩ := h
  rw [AgcRewindPatchSetRewindState] at hpatch
  split_ifs at hpatch
  cases hpatch
  match dwords, hlength with
  | [c0, c1], hlength =>
    have hwas : c1 = if valid then 0x80000000#32 else 0#32 := (List.cons.inj hfields).1
    have hword : (c1 &&& 0x7fffffff#32) ||| (wide state <<< 31) =
        if decide (state = 1) = true then 0x80000000#32 else 0#32 := by
      rw [hwas]
      rcases eq_zero_or_one hfits with rfl | rfl <;> cases valid <;> decide
    exact ⟨hsized, hlength, hheader, congrArg (fun c => [c]) hword⟩

theorem patch_predication (h : Encodes dwords predicated p) (predication : BitVec 32) :
    Encodes (AgcSetPacketPredication dwords predication) (predication.setWidth 8 = 1#8) p := by
  obtain ⟨hsized, hlength, hheader, hfields⟩ := h
  have htwo := hsized.two_le.1
  obtain ⟨c0, rest, rfl⟩ : ∃ c0 rest, dwords = c0 :: rest :=
    exists_cons_of_length_pos (by omega)
  have hwas : c0 = p.header ||| (if predicated then 1#32 else 0#32) := hheader
  refine ⟨hsized, hlength, ?_, hfields⟩
  change (c0 &&& ~~~1#32) ||| (if predication.setWidth 8 = 1#8 then 1#32 else 0#32) = _
  rw [hwas, unpredicated p.header_bit]
  simp only [decide_eq_true_eq]

theorem opcode_write (h : p.opcode = IT_WRITE_DATA) :
    ∃ dst data control, p = .write dst data control := by
  cases p with
  | write dst data control => exact ⟨dst, data, control, rfl⟩
  | _ => exact absurd h (by dsimp only [Packet.opcode]; decide)

theorem opcode_indirect (h : p.opcode = IT_INDIRECT_BUFFER) :
    (∃ args, p = .branch args) ∨ ∃ target num_dw, p = .jump target num_dw := by
  cases p with
  | branch args => exact .inl ⟨args, rfl⟩
  | jump target num_dw => exact .inr ⟨target, num_dw, rfl⟩
  | _ => exact absurd h (by dsimp only [Packet.opcode]; decide)

theorem opcode_dma (h : p.opcode = IT_DMA_DATA) : ∃ args, p = .dma args := by
  cases p with
  | dma args => exact ⟨args, rfl⟩
  | _ => exact absurd h (by dsimp only [Packet.opcode]; decide)

theorem opcode_rewind (h : p.opcode = IT_REWIND) : ∃ valid, p = .rewind valid := by
  cases p with
  | rewind valid => exact ⟨valid, rfl⟩
  | _ => exact absurd h (by dsimp only [Packet.opcode]; decide)

/-- **A patch changes its value, and no other.** -/
theorem Patch.step (h : Encodes dwords predicated p) (hsmall : p.Small)
    (hfits : patch.Fits) (hsuits : patch.Suits p) (hpatch : patch.run dwords = some dwords') :
    Encodes dwords' (patch.predicated predicated) (patch.apply p) ∧ (patch.apply p).Small := by
  have hop := h.patchedOp
  -- a patch that succeeds has found its opcode
  cases patch with
  | AgcWriteDataPatchSetAddressOrOffset address_or_offset =>
    have hcode := (ite_none_right_eq_some.mp hpatch).1
    obtain ⟨dst, data, control, rfl⟩ := opcode_write (hop.symm.trans hcode)
    exact ⟨patch_write h hpatch, trivial⟩
  | AgcJumpPatchSetTarget target size_in_dwords =>
    have hcode := not_not.mp (ite_none_left_eq_some.mp hpatch).1
    rcases opcode_indirect (hop.symm.trans hcode) with ⟨args, rfl⟩ | ⟨was, num_dw, rfl⟩
    · exact hsuits.elim
    · exact ⟨patch_jump h hsmall hfits hpatch, hfits.1⟩
  | AgcDmaDataPatchSetDstAddressOrOffset dst_address_or_offset =>
    have hcode := (ite_none_right_eq_some.mp hpatch).1
    obtain ⟨args, rfl⟩ := opcode_dma (hop.symm.trans hcode)
    exact ⟨patch_dma_dst h hpatch, trivial⟩
  | AgcDmaDataPatchSetSrcAddressOrOffsetOrImmediate src_address_or_offset_or_immediate =>
    have hcode := (ite_none_right_eq_some.mp hpatch).1
    obtain ⟨args, rfl⟩ := opcode_dma (hop.symm.trans hcode)
    exact ⟨patch_dma_src h hpatch, trivial⟩
  | AgcRewindPatchSetRewindState state =>
    have hcode := not_not.mp (ite_none_left_eq_some.mp hpatch).1
    obtain ⟨valid, rfl⟩ := opcode_rewind (hop.symm.trans hcode)
    exact ⟨patch_rewind h hfits hpatch, trivial⟩
  | AgcSetPacketPredication predication =>
    cases hpatch
    exact ⟨patch_predication h predication, hsmall⟩

theorem Patch.suits_apply {later : Patch} (h : later.Suits p) : later.Suits (patch.apply p) := by
  cases patch <;> cases p <;> cases later <;> trivial

end Steps

/-! ## Any number of patches -/

variable (patches : List Patch)

/-- What is left of a packet after patches; none where one of them returns an error. -/
def patched (dwords : List (BitVec 32)) : Option (List (BitVec 32)) :=
  patches.foldlM Patch.run dwords

/-- The packet after patches. -/
def changed (p : Packet) : Packet :=
  patches.foldl (fun p patch => patch.apply p) p

/-- The predicate bit after patches. -/
def predication (predicated : Bool) : Bool :=
  patches.foldl (fun predicated patch => patch.predicated predicated) predicated

theorem patched_encodes {patches : List Patch} (h : Encodes dwords predicated p) (hsmall : p.Small)
    (hpatches : ∀ patch ∈ patches, patch.Fits ∧ patch.Suits p)
    (hpatched : patched patches dwords = some dwords') :
    Encodes dwords' (predication patches predicated) (changed patches p) := by
  induction patches generalizing dwords predicated p with
  | nil =>
    cases hpatched
    exact h
  | cons patch patches ih =>
    obtain ⟨⟨hfits, hsuits⟩, hrest⟩ := forall_mem_cons.mp hpatches
    rw [patched, foldlM_cons] at hpatched
    change (patch.run dwords).bind _ = _ at hpatched
    rw [bind_eq_some_iff] at hpatched
    obtain ⟨between, hrun, hlater⟩ := hpatched
    obtain ⟨hstep, hstill⟩ := Patch.step h hsmall hfits hsuits hrun
    exact ih hstep hstill (fun later hmem => ⟨(hrest later hmem).1,
      Patch.suits_apply (hrest later hmem).2⟩) hlater

/-! ## What `ProcessPm4` recovers -/

theorem context_small (operation : ContextStateOperation) :
    ∀ p ∈ Call.contextPackets operation, p.Small := by
  cases operation <;> simp [Call.contextPackets, Packet.Small]

theorem packets_small {call : Call} (hfits : call.Fits) : ∀ p ∈ call.packets, p.Small := by
  cases call with
  | AgcDcbJump mode cache_policy target size_in_dwords =>
    exact forall_mem_singleton.mpr hfits.2.1
  | AgcDcbContextStateOp operation =>
    dsimp only [Call.packets]
    cases ContextStateOperation.ofWord operation with
    | none => exact forall_mem_nil _
    | some operation => exact context_small operation
  | _ => exact forall_mem_singleton.mpr trivial

section Recovery

variable {S : Type*}

/-- What is recovered from dwords that were written for a packet: after any patches that succeed,
wherever the dwords are, `ProcessPm4` does with them what is in the changed packet, and goes on
behind them. -/
def Recovers (cp : CommandProcessor S) (execute : S → Request → Option S) (segment : Segment)
    (p : Packet) : Prop :=
  ∀ (patches : List Patch) (dwords : List (BitVec 32)),
    (∀ patch ∈ patches, patch.Fits ∧ patch.Suits p) → patched patches segment.dwords = some dwords →
    dwords.length = segment.dwords.length ∧
    ∀ (s : S) (address remaining_dw total_dw : ℕ), At cp s address dwords →
      dwords.length ≤ remaining_dw → remaining_dw ≤ total_dw →
      (cp.serving execute).processor.packet s address remaining_dw total_dw =
        (if predication patches false = true ∧ cp.ShouldSkipPredicatedPackets s = true then
          .skip dwords.length
        else .handled ((changed patches p).answer cp execute s)) ∧
      ∀ d, ((cp.serving execute).processor.packet s address remaining_dw total_dw).dwords = some d →
        d = dwords.length

variable {cp : CommandProcessor S} {execute : S → Request → Option S}

theorem Patch.apply_size (patch : Patch) (p : Packet) : (patch.apply p).size = p.size := by
  cases patch <;> cases p <;> rfl

theorem changed_size (patches : List Patch) (p : Packet) : (changed patches p).size = p.size := by
  induction patches generalizing p with
  | nil => rfl
  | cons patch patches ih => exact (ih (patch.apply p)).trans (patch.apply_size p)

theorem encodes_recovers {segment : Segment} (h : Encodes segment.dwords false p)
    (hsmall : p.Small) : Recovers cp execute segment p := by
  intro patches dwords hpatches hpatched
  have hencodes := patched_encodes h hsmall hpatches hpatched
  have hlength : dwords.length = segment.dwords.length := by
    rw [hencodes.length, changed_size, h.length]
  refine ⟨hlength, fun s address remaining_dw total_dw hat hfits htotal => ?_⟩
  have hread : (cp.serving execute).processor.packet s address remaining_dw total_dw = _ :=
    hencodes.read hat (by rw [← hencodes.length]; exact hfits) htotal
  rw [← hencodes.length] at hread
  refine ⟨hread, fun d hd => ?_⟩
  rw [hread] at hd
  split_ifs at hd
  · exact (some.inj hd).symm
  · obtain ⟨n, hn, rfl⟩ := map_eq_some_iff.mp hd
    rw [hencodes.length]
    exact answer_dwords hencodes.sized hn

/-- **What a function writes is what `ProcessPm4` recovers.** The dwords are as many as the
matching function says, and packet by packet the command processor is given the arguments of the
call, with those that a later patch has changed. -/
theorem packets_recovered (cp : CommandProcessor S) (execute : S → Request → Option S)
    (grow : CommandBuffer → BitVec 32 → Option CommandBuffer) (buf buf' : CommandBuffer)
    (call : Call) (segments : List Segment) (hfits : call.Fits)
    (hbuild : call.build grow buf = some (segments, buf')) :
    (∀ bytes, call.getSize = some bytes → bytes = 4 * (segments.map (·.dwords.length)).sum) ∧
    List.Forall₂ (Recovers cp execute) segments call.packets := by
  have hemits := Call.encodes hfits hbuild
  constructor
  · intro bytes hbytes
    rw [hemits.length]
    exact Call.getSize_eq hfits hbuild hbytes
  · have hsmall := packets_small hfits
    clear hbuild
    generalize call.packets = packets at hemits hsmall
    induction hemits with
    | nil => exact .nil
    | cons hfirst _ ih =>
      obtain ⟨hone, hrest⟩ := List.forall_mem_cons.mp hsmall
      exact .cons (encodes_recovers hfirst hone) (ih hrest)

end Recovery

/-- A command buffer of 64 dwords that does not grow. -/
def room : CommandBuffer := ⟨0x1000, 0x1100, 0, 0⟩

/-- A command processor that notes what it is asked for, with the words at address 0. -/
def listening (words : List (BitVec 32)) : CommandProcessor (List Request) where
  word _ address := words.getD (address / 4) 0#32
  ShouldSkipPredicatedPackets _ := false
  m_de_count _ := 0
  m_ce_count _ := 0
  m_ce_complete _ := false
  perform s _ _ := some s
  write s _ _ _ := some s
  g_hw_ctx_indirect_func _ := none
  g_hw_uc_indirect_func _ := none

def noted (s : List Request) (request : Request) : Option (List Request) := some (request :: s)

/-- A write of one dword to memory. -/
def oneDword (dst write_confirm : BitVec 8) : WriteDataArgs :=
  ⟨dst, 0, 0x10000, some fun _ => 7, 1, 0, write_confirm⟩

/-- The dwords of the write after its address was patched. -/
def patchedWrite : List (BitVec 32) := [0xC0033700, 0x40100200, 0x20000, 0, 7]

theorem packets_recovered_write :
    (listening patchedWrite |>.serving noted).processor.packet [] 0 5 5 =
      .handled (.ran [.WriteData 0x20000 [7] 1 ⟨5, 0, 0, 1⟩] 4) := by
  have h := (packets_recovered (listening patchedWrite) noted (fun _ _ => none) room
    { room with cursor_up := 0x1014 } (.AgcDcbWriteData (oneDword 5 1))
    [⟨0x1000, [0xC0033700, 0x40100200, 0x10000, 0, 7]⟩]
    ⟨by decide, by decide, by decide, by decide, by decide, by decide⟩ rfl).2
  obtain ⟨hrecovers, _⟩ := List.forall₂_cons.mp h
  have hpatched := hrecovers [.AgcWriteDataPatchSetAddressOrOffset 0x20000] patchedWrite
    (List.forall_mem_singleton.mpr ⟨trivial, trivial⟩) rfl
  refine (hpatched.2 [] 0 5 5 ?_ (by decide) (by decide)).1.trans rfl
  intro i _
  change patchedWrite.getD ((0 + 4 * i) / 4) 0 = _
  rw [Nat.zero_add, Nat.mul_div_cancel_left i (by decide)]

/-- A branch on the dword at 0x2000, with this mode. -/
def branchOf (mode : BitVec 8) : BranchArgs :=
  ⟨mode, 3, 0x2000, 0, 0, 0, 0x3000, 4, 0, 0x4000, 4⟩

/-- The dwords of such a branch. -/
def branchDwords (mode : BitVec 8) : List (BitVec 32) :=
  [0xC00C3F00, wide mode ||| 0x300, 0x2000, 0, 0, 0, 0, 0, 0x3000, 0, 4, 0x4000, 0, 4]

/-- The confirmation of a write of a register is lost, the process stops at a branch of mode 3, and
a jump patch of a branch succeeds and changes its mode, its function and the address it compares. -/
theorem given_values_lost :
    (∃ dwords, (Call.AgcAcbWriteData (oneDword 0 1)).Fits ∧
      (Call.AgcAcbWriteData (oneDword 0 1)).build (fun _ _ => none) room =
        some ([⟨0x1000, dwords⟩], { room with cursor_up := 0x1014 }) ∧
      (listening dwords |>.serving noted).processor.packet [] 0 5 5 =
        .handled (.ran [.WriteData 0x10000 [7] 1 ⟨0, 0, 0, 0⟩] 4)) ∧
    ((Call.AgcCbBranch (branchOf 3)).Fits ∧
      (Call.AgcCbBranch (branchOf 3)).build (fun _ _ => none) room =
        some ([⟨0x1000, branchDwords 3⟩], { room with cursor_up := 0x1038 }) ∧
      (listening (branchDwords 3) |>.serving noted).processor.packet [] 0 14 14 =
        .handled .exit) ∧
    ((Call.AgcCbBranch (branchOf 1)).Fits ∧
      (Call.AgcCbBranch (branchOf 1)).build (fun _ _ => none) room =
        some ([⟨0x1000, branchDwords 1⟩], { room with cursor_up := 0x1038 }) ∧
      (listening (branchDwords 1) |>.serving noted).processor.packet [] 0 14 14 =
        .handled (.entered 0x3000 4 13) ∧
      ∃ dwords, AgcJumpPatchSetTarget (branchDwords 1) 0x8000 4 = some dwords ∧
        (readBranch (dwords.tail.getD · 0)).mode = 0 ∧
        (readBranch (dwords.tail.getD · 0)).function = 0 ∧
        (readBranch (dwords.tail.getD · 0)).compare_addr = 0x400000000 ∧
        (listening dwords |>.serving noted).processor.packet [] 0 14 14 = .handled .exit) := by
  refine ⟨⟨[0xC0033700, 0, 0x10000, 0, 7], ?_, rfl, rfl⟩, ⟨?_, rfl, rfl⟩, ⟨?_, rfl, rfl,
    [0xC00C3F00, 0x8000, 0, 4, 0, 0, 0, 0, 0x3000, 0, 4, 0x4000, 0, 4], rfl, rfl, rfl, rfl, rfl⟩⟩
  · exact ⟨by decide, by decide, by decide, by decide, by decide⟩
  · exact ⟨by decide, by decide, by decide, by decide, by decide, by decide, by decide⟩
  · exact ⟨by decide, by decide, by decide, by decide, by decide, by decide, by decide⟩

end MagnusPS5.Agc
