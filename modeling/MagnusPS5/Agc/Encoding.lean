/-
The dwords that the functions of `agc.cpp` write encode the packets of their calls.

Of each control dword it is said once what each of its fields gives back; the rest are addresses
and sizes, which are given back if they are aligned and fit.
-/
import MagnusPS5.Agc.Calls

namespace MagnusPS5.Agc

open List Option
open BitVec (toNat_setWidth and_or_distrib_right or_zero zero_or and_or_distrib_left toNat_mul)

open Graphics.Pm4 Lib Call Encodes Packet ContextStateOperation

/-! ## Values that fit -/

variable {value : BitVec 8} {control dst_sel : BitVec 32} {args : WriteDataArgs}

section Fitting

theorem wide_toNat (value : BitVec 8) : (wide value).toNat = value.toNat := by
  rw [wide, toNat_setWidth]
  omega

theorem wide_narrow (value : BitVec 8) : (wide value).setWidth 8 = value := by
  simp [wide]

theorem wide_and {n : ℕ} (h : value.toNat < 2 ^ n) (hn : n ≤ 32) :
    wide value &&& .ofNat 32 (2 ^ n - 1) = wide value :=
  and_low (by rwa [wide_toNat]) hn

theorem low_toNat (value : BitVec 64) : (low value).toNat = value.toNat % 2 ^ 32 := by
  rw [low_eq, toNat_setWidth]

theorem high_toNat (value : BitVec 64) : (high value).toNat = value.toNat / 2 ^ 32 := by
  rw [high_eq, toNat_setWidth, BitVec.toNat_ushiftRight, Nat.shiftRight_eq_div_pow]
  omega

theorem low_aligned {value : BitVec 64} {n : ℕ} (h : value.toNat % 2 ^ n = 0) (hn : n ≤ 32) :
    low value &&& ~~~.ofNat 32 (2 ^ n - 1) = low value := by
  apply and_high _ hn
  rw [low_toNat, Nat.mod_mod_of_dvd _ (Nat.pow_dvd_pow 2 hn), h]

theorem low_and (value m : BitVec 64) : low (value &&& m) = low value &&& low m := by
  rw [low_eq, low_eq, low_eq, BitVec.setWidth_and]

end Fitting

/-! ## Control dwords -/

section Control

theorem dmaControl2_fields (args : DmaDataArgs) :
    dmaControl2 args &&& 0x03ffffff#32 = args.num_bytes &&& 0x03ffffff#32 ∧
    (dmaControl2 args >>> 24) &&& 0x4#32 = wide args.src &&& 0x4#32 ∧
    (dmaControl2 args >>> 25) &&& 0x4#32 = wide args.dst &&& 0x4#32 ∧
    (dmaControl2 args >>> 25) &&& 0x8#32 = wide args.src &&& 0x8#32 ∧
    (dmaControl2 args >>> 26) &&& 0x8#32 = wide args.dst &&& 0x8#32 ∧
    (dmaControl2 args >>> 30) &&& 0x1#32 = wide args.wait_for_previous &&& 0x1#32 ∧
    (dmaControl2 args >>> 31) &&& 0x1#32 = wide args.write_confirm &&& 0x1#32 := by
  unfold dmaControl2
  simp (disch := decide) only [take_or, take_same, take_apart, take_apart_low,
    and_or_distrib_right, low_same, low_apart, or_zero, zero_or, and_self]

theorem selector_narrow (value : BitVec 8) :
    ((wide value &&& 0x3#32) ||| (wide value &&& 0x4#32) ||| (wide value &&& 0x8#32)).setWidth 8 =
      value &&& 0xf#8 := by
  rw [← and_or_distrib_left, ← and_or_distrib_left, BitVec.setWidth_and, wide_narrow]
  rfl

/-- A copy by DMA is read as it was written. -/
theorem readDmaData_eq {engine block_engine : BitVec 8} {args : DmaDataArgs}
    (src_address : BitVec 64) (hfits : Call.Fits.DmaFits args) (hfengine : engine.toNat < 2 ^ 1)
    (hfblock : block_engine.toNat < 2 ^ 1) (hengine : control &&& 0x1#32 = wide engine &&& 0x1#32)
    (hsrc_cache : (control >>> 13) &&& 0x3#32 = wide args.src_cache_policy &&& 0x3#32)
    (hdst : (control >>> 20) &&& 0x3#32 = wide args.dst &&& 0x3#32)
    (hdst_cache : (control >>> 25) &&& 0x3#32 = wide args.dst_cache_policy &&& 0x3#32)
    (hsrc : (control >>> 29) &&& 0x3#32 = wide args.src &&& 0x3#32)
    (hblock : (control >>> 31) &&& 0x1#32 = wide block_engine &&& 0x1#32) :
    Packet.Fields [control, low src_address, high src_address, low args.dst_address_or_offset,
      high args.dst_address_or_offset, dmaControl2 args]
      (dmaPacket engine args src_address block_engine) := by
  obtain ⟨hfdst, hfdst_cache, hfsrc_cache, hbytes, hwait, hconfirm⟩ := hfits
  obtain ⟨hnum, hsrc4, hdst4, hsrc8, hdst8, hwaits, hconfirms⟩ := dmaControl2_fields args
  have hsel : args.dst &&& 0xf#8 = args.dst := and_low (n := 4) hfdst (by decide)
  have hfnum := hnum.trans (and_low (n := 26) hbytes (by decide))
  have hfwait := hwaits.trans (wide_and (n := 1) hwait (by decide))
  have hfconfirm := hconfirms.trans (wide_and (n := 1) hconfirm (by decide))
  have hfdc := hdst_cache.trans (wide_and (n := 2) hfdst_cache (by decide))
  have hfsc := hsrc_cache.trans (wide_and (n := 2) hfsrc_cache (by decide))
  have hfe := hengine.trans (wide_and (n := 1) hfengine (by decide))
  have hfb := hblock.trans (wide_and (n := 1) hfblock (by decide))
  change readDmaData _ = _
  unfold readDmaData
  simp only [getD_cons_zero, getD_cons_succ]
  rw [hfe, hfsc, hdst, hfdc, hsrc, hfb, hfnum, hsrc4, hdst4, hsrc8, hdst8, hfwait, hfconfirm,
    high_low, high_low, selector_narrow, selector_narrow, hsel]
  simp only [wide_narrow]

end Control

/-! ## Branches, jumps and predication -/

section Addresses

/-- A branch is read as it was written, where its arguments fit. -/
theorem branch_fields {args : BranchArgs} (hfits : (Call.AgcCbBranch args).Fits) :
    readBranch ([(wide args.mode &&& 0x3#32) ||| ((wide args.compare_function &&& 0x7#32) <<< 8),
      low (args.compare_addr &&& 0xfffffff8#64), high args.compare_addr,
      low args.mask, high args.mask, low args.reference, high args.reference,
      low (args.buffer1 &&& 0xfffffffc#64), high args.buffer1,
      (args.size_in_dwords1 &&& 0xfffff#32) ||| ((wide args.cache_policy1 &&& 0x3#32) <<< 28),
      low (args.buffer2 &&& 0xfffffffc#64), high args.buffer2,
      (args.size_in_dwords2 &&& 0xfffff#32) |||
        ((wide args.cache_policy2 &&& 0x3#32) <<< 28)].getD · 0) = {
      compare_addr := args.compare_addr
      mask := args.mask
      reference := args.reference
      mode := wide args.mode
      function := args.compare_function.toNat
      then_buffer := args.buffer1
      then_num_dw := args.size_in_dwords1.toNat
      else_buffer := args.buffer2
      else_num_dw := args.size_in_dwords2.toNat } := by
  obtain ⟨hmode, hfunction, haddr, hbuffer1, hbuffer2, hsize1, hsize2⟩ := hfits
  have hmask8 : low 0xfffffff8#64 = 0xfffffff8#32 := by decide
  have hmask4 : low 0xfffffffc#64 = 0xfffffffc#32 := by decide
  have haddr' : low args.compare_addr &&& 0xfffffff8#32 = low args.compare_addr :=
    low_aligned (n := 3) haddr (by decide)
  have hthen : low args.buffer1 &&& 0xfffffffc#32 = low args.buffer1 :=
    low_aligned (n := 2) hbuffer1 (by decide)
  have helse : low args.buffer2 &&& 0xfffffffc#32 = low args.buffer2 :=
    low_aligned (n := 2) hbuffer2 (by decide)
  have hmodes : wide args.mode &&& 0x3#32 = wide args.mode := wide_and (n := 2) hmode (by decide)
  have hfunctions : wide args.compare_function &&& 0x7#32 = wide args.compare_function :=
    wide_and (n := 3) hfunction (by decide)
  have hnum1 : args.size_in_dwords1 &&& 0xfffff#32 = args.size_in_dwords1 :=
    and_low (n := 20) hsize1 (by decide)
  have hnum2 : args.size_in_dwords2 &&& 0xfffff#32 = args.size_in_dwords2 :=
    and_low (n := 20) hsize2 (by decide)
  unfold readBranch
  simp only [getD_cons_zero, getD_cons_succ]
  simp (disch := decide) only [take_or, take_same, take_apart_low, and_or_distrib_right,
    low_same, low_apart, or_zero, zero_or]
  simp only [low_and, hmask8, hmask4, haddr', hthen, helse, hmodes, hfunctions, hnum1, hnum2,
    high_low, wide_toNat]

/-- A jump is read as it was written. -/
theorem jump_fields {mode cache_policy : BitVec 8} {target : BitVec 64} {size_in_dwords : BitVec 32}
    (hfits : (Call.AgcDcbJump mode cache_policy target size_in_dwords).Fits) :
    Packet.Fields [low target &&& ~~~0x3#32, high target,
      0x0f200000#32 ||| ((wide cache_policy &&& 0x3#32) <<< 28) |||
        ((wide mode &&& 0x1#32) <<< 20) ||| (size_in_dwords &&& 0xfffff#32)]
      (.jump target size_in_dwords.toNat) := by
  obtain ⟨htarget, _, hsize⟩ := hfits
  have haligned : low target &&& ~~~0x3#32 = low target := low_aligned (n := 2) htarget (by decide)
  have hnum : size_in_dwords &&& 0xfffff#32 = size_in_dwords := and_low (n := 20) hsize (by decide)
  have hconst : 0x0f200000#32 &&& 0xfffff#32 = 0#32 := by decide
  constructor
  · simp only [getD_cons_zero, getD_cons_succ]
    rw [haligned, high_low]
  · simp only [getD_cons_zero, getD_cons_succ]
    simp (disch := decide) only [and_or_distrib_right, low_apart, zero_or, hconst,
      hnum]

/-- A predication is read as it was written. -/
theorem predication_fields {condition op wait_op : BitVec 8} {address : BitVec 64}
    {count_in_dwords : BitVec 32}
    (hfits : (Call.AgcDcbSetPredication condition op wait_op address count_in_dwords).Fits) :
    Packet.Fields [((wide condition &&& 0x1#32) <<< 8) ||| ((wide wait_op &&& 0x1#32) <<< 12) |||
        ((wide op &&& 0x7#32) <<< 16),
      low address &&& ~~~0xf#32, high address]
      (.predication ⟨wide condition, wide op, wide wait_op, address⟩) := by
  obtain ⟨hcondition, hop, hwait, haligned, hsmall⟩ := hfits
  have hlow : low address &&& ~~~0xf#32 = low address := low_aligned (n := 4) haligned (by decide)
  have hlow' : low address &&& 0xfffffff0#32 = low address := hlow
  have hhigh : high address ≤ 0x0000ffff#32 := by
    rw [BitVec.le_def, high_toNat, show (0x0000ffff#32).toNat = 0xffff by decide]
    omega
  have hconditions : wide condition &&& 0x1#32 = wide condition :=
    wide_and (n := 1) hcondition (by decide)
  have hops : wide op &&& 0x7#32 = wide op := wide_and (n := 3) hop (by decide)
  have hwaits : wide wait_op &&& 0x1#32 = wide wait_op := wide_and (n := 1) hwait (by decide)
  change readPredication 3 _ = _
  unfold readPredication
  simp only [getD_cons_zero, getD_cons_succ]
  rw [if_pos]
  · simp (disch := decide) only [take_or, take_same, take_apart, or_zero, zero_or]
    rw [hlow, hlow', high_low, hconditions, hops, hwaits]
  · refine ⟨by decide, ?_, hhigh⟩
    simp (disch := decide) only [and_or_distrib_right, low_apart]
    rfl

end Addresses

/-! ## Copies and writes -/

section Selectors

theorem selector_four (h : value.toNat < 2 ^ 4) :
    (wide value &&& 0xf#32) <<< 1 = wide value <<< 1 := by
  rw [show wide value &&& 0xf#32 = wide value from wide_and (n := 4) h (by decide)]

theorem selector_five (h : value.toNat < 2 ^ 5) :
    (((wide value >>> 1) &&& 0xf#32) <<< 1) ||| (wide value &&& 0x1#32) = wide value := by
  rw [put_take, ← and_or_distrib_left]
  exact wide_and (n := 5) h (by decide)

theorem selector_engineless (h : value.toNat < 2 ^ 5) :
    ((wide value >>> 1) &&& 0xf#32) <<< 1 = wide value &&& ~~~1#32 := by
  have hfive : wide value &&& 0x1f#32 = wide value := wide_and (n := 5) h (by decide)
  rw [put_take, ← hfive, BitVec.and_assoc, BitVec.and_assoc]
  rfl

theorem item_size_bytes (h : value.toNat < 2 ^ 1) :
    (if wide value &&& 0x1#32 ≠ 0 then 8#32 else 4#32) = if value = 1#8 then 8#32 else 4#32 := by
  rcases eq_zero_or_one h with rfl | rfl <;> decide

/-- The control word of a copy, field by field. -/
theorem readCopyData_eq {src_sel : BitVec 32} {args : CopyDataArgs}
    (hfits : Call.Fits.CopyFits args)
    (hsrc : ((control &&& 0xf#32) <<< 1) ||| ((control >>> 30) &&& 0x1#32) = src_sel)
    (hdst : ((control >>> 8) &&& 0xf#32) <<< 1 = dst_sel)
    (hsrc_cache : (control >>> 13) &&& 0x3#32 = wide args.src_cache_policy &&& 0x3#32)
    (hitem : (control >>> 16) &&& 0x1#32 = wide args.item_size &&& 0x1#32)
    (hconfirm : (control >>> 20) &&& 0x1#32 = wide args.write_confirm &&& 0x1#32)
    (hdst_cache : (control >>> 25) &&& 0x3#32 = wide args.dst_cache_policy &&& 0x3#32) :
    Packet.Fields [control, low args.src_address_or_immediate, high args.src_address_or_immediate,
      low args.dst_address, high args.dst_address] (copyPacket src_sel dst_sel args) := by
  obtain ⟨hfdst_cache, hfsrc_cache, hfitem, hfconfirm⟩ := hfits
  have hfdc := hdst_cache.trans (wide_and (n := 2) hfdst_cache (by decide))
  have hfsc := hsrc_cache.trans (wide_and (n := 2) hfsrc_cache (by decide))
  have hfc := hconfirm.trans (wide_and (n := 1) hfconfirm (by decide))
  change readCopyData _ = _
  unfold readCopyData
  simp only [getD_cons_zero, getD_cons_succ]
  rw [hsrc, hdst, hfdc, hfsc, hfc, hitem, item_size_bytes hfitem, high_low, high_low]
  simp only [wide_narrow]

theorem acbCopy_fields {args : CopyDataArgs} (hfits : (Call.AgcAcbCopyData args).Fits) :
    Packet.Fields [(wide args.src &&& 0xf#32) ||| ((wide args.dst &&& 0xf#32) <<< 8) |||
        ((wide args.src_cache_policy &&& 0x3#32) <<< 13) |||
        ((wide args.item_size &&& 0x1#32) <<< 16) |||
        ((wide args.write_confirm &&& 0x1#32) <<< 20) |||
        ((wide args.dst_cache_policy &&& 0x3#32) <<< 25),
      low args.src_address_or_immediate, high args.src_address_or_immediate,
      low args.dst_address, high args.dst_address]
      (copyPacket (wide args.src <<< 1) (wide args.dst <<< 1) args) := by
  obtain ⟨hsrc, hdst, hargs⟩ := hfits
  apply readCopyData_eq hargs
  · rw [← selector_four hsrc]
    simp (disch := decide) only [take_or, take_apart, take_apart_low, and_or_distrib_right,
      low_same, low_apart, or_zero]
  · rw [← selector_four hdst]
    simp (disch := decide) only [take_or, take_same, take_apart, take_apart_low, or_zero,
      zero_or]
  all_goals
    simp (disch := decide) only [take_or, take_same, take_apart, take_apart_low, or_zero,
      zero_or]

theorem dcbCopy_fields {args : CopyDataArgs} (hfits : (Call.AgcDcbCopyData args).Fits) :
    Packet.Fields [((wide args.src >>> 1) &&& 0xf#32) |||
        (((wide args.dst >>> 1) &&& 0xf#32) <<< 8) |||
        ((wide args.src_cache_policy &&& 0x3#32) <<< 13) |||
        ((wide args.item_size &&& 0x1#32) <<< 16) |||
        ((wide args.write_confirm &&& 0x1#32) <<< 20) |||
        ((wide args.dst_cache_policy &&& 0x3#32) <<< 25) ||| ((wide args.src &&& 0x1#32) <<< 30),
      low args.src_address_or_immediate, high args.src_address_or_immediate,
      low args.dst_address, high args.dst_address]
      (copyPacket (wide args.src) (wide args.dst &&& ~~~1#32) args) := by
  obtain ⟨hsrc, hdst, hargs⟩ := hfits
  apply readCopyData_eq hargs
  · rw [← selector_five hsrc]
    simp (disch := decide) only [take_or, take_same, take_apart, take_apart_low,
      and_or_distrib_right, low_same, low_apart, or_zero, zero_or]
  · rw [← selector_engineless hdst]
    simp (disch := decide) only [take_or, take_same, take_apart, take_apart_low, or_zero,
      zero_or]
  all_goals
    simp (disch := decide) only [take_or, take_same, take_apart, take_apart_low, or_zero,
      zero_or]

theorem writeConfirm_and (args : WriteDataArgs) :
    writeConfirm args &&& 0x1#32 = writeConfirm args := by
  unfold writeConfirm
  split_ifs
  · exact BitVec.zero_and
  · exact low_same _ _

/-- The control word of a write, field by field. -/
theorem readWriteControl_eq (hfits : Call.Fits.WriteFits args)
    (hdst : ((control >>> 30) &&& 0x1#32) ||| ((control >>> 7) &&& 0x1e#32) = dst_sel)
    (hincrement : (control >>> 16) &&& 0x1#32 = wide args.increment &&& 0x1#32)
    (hconfirm : (control >>> 20) &&& 0x1#32 = writeConfirm args &&& 0x1#32)
    (hcache : (control >>> 25) &&& 0x3#32 = wide args.cache_policy &&& 0x3#32) :
    readWriteControl control = {
      dst_sel := dst_sel
      cache_policy := wide args.cache_policy
      increment := wide args.increment
      write_confirm := if args.dst = 0 then 0 else wide args.write_confirm } := by
  obtain ⟨hfcache, _, hfincrement, hfconfirm⟩ := hfits
  have hfi := hincrement.trans (wide_and (n := 1) hfincrement (by decide))
  have hfc := hcache.trans (wide_and (n := 2) hfcache (by decide))
  have hbit : wide args.write_confirm &&& 0x1#32 = wide args.write_confirm :=
    wide_and (n := 1) hfconfirm (by decide)
  unfold readWriteControl
  rw [hdst, hfi, hfc, hconfirm, writeConfirm_and, writeConfirm, hbit]

theorem acbWrite_control (hdst : args.dst.toNat < 2 ^ 4) (hfits : Call.Fits.WriteFits args) :
    readWriteControl (((wide args.dst &&& 0xf#32) <<< 8) |||
        ((wide args.increment &&& 0x1#32) <<< 16) ||| (writeConfirm args <<< 20) |||
        ((wide args.cache_policy &&& 0x3#32) <<< 25)) = {
      dst_sel := wide args.dst <<< 1
      cache_policy := wide args.cache_policy
      increment := wide args.increment
      write_confirm := if args.dst = 0 then 0 else wide args.write_confirm } := by
  have hsel : ((((wide args.dst &&& 0xf#32) <<< 8) >>> 7) &&& 0x1e#32) = wide args.dst <<< 1 := by
    rw [← selector_four hdst]
    exact take_moved (j := 7) (d := 1) _ (by decide)
  rw [← writeConfirm_and]
  apply readWriteControl_eq hfits
  · rw [← hsel]
    simp (disch := decide) only [take_or, take_apart, or_zero, zero_or]
  all_goals
    simp (disch := decide) only [take_or, take_same, take_apart, or_zero, zero_or]

theorem dcbWrite_control (hdst : args.dst.toNat < 2 ^ 5) (hfits : Call.Fits.WriteFits args) :
    readWriteControl (((wide args.dst &&& 0x1#32) <<< 30) |||
        ((wide args.dst &&& 0x1e#32) <<< 7) |||
        ((wide args.increment &&& 0x1#32) <<< 16) ||| (writeConfirm args <<< 20) |||
        ((wide args.cache_policy &&& 0x3#32) <<< 25)) = {
      dst_sel := wide args.dst
      cache_policy := wide args.cache_policy
      increment := wide args.increment
      write_confirm := if args.dst = 0 then 0 else wide args.write_confirm } := by
  have hsel : (wide args.dst &&& 0x1#32) ||| (wide args.dst &&& 0x1e#32) = wide args.dst := by
    rw [← and_or_distrib_left]
    exact wide_and (n := 5) hdst (by decide)
  rw [← writeConfirm_and]
  apply readWriteControl_eq hfits
  · simp (disch := decide) only [take_or, take_same, take_apart, or_zero, zero_or]
    exact hsel
  all_goals
    simp (disch := decide) only [take_or, take_same, take_apart, or_zero, zero_or]

end Selectors

/-! ## One packet at a place -/

variable {payload : List (BitVec 32)}
  {grow : CommandBuffer → BitVec 32 → Option CommandBuffer} {buf buf' : CommandBuffer}
  {segments : List Segment}

theorem Encodes.plain {p : Packet} (hsized : p.Sized)
    (hlength : payload.length + 1 = p.size) (hfields : p.Fields payload) :
    Encodes (p.header :: payload) false p :=
  ⟨hsized, hlength, (or_zero).symm, hfields⟩

/-- The segments hold the packets, one in each. -/
abbrev Emits (segments : List Segment) (packets : List Packet) : Prop :=
  List.Forall₂ (fun segment p => Encodes segment.dwords false p) segments packets

section Single

/-- A call of one packet writes that packet. -/
theorem single_encodes {size_dw : BitVec 32} {p : Packet}
    (h : single (emit grow buf size_dw (p.header :: payload)) = some (segments, buf'))
    (hsized : p.Sized) (hlength : payload.length + 1 = p.size) (hfields : p.Fields payload) :
    Emits segments [p] := by
  unfold single emit at h
  rw [Option.map_map, Option.map_eq_some_iff] at h
  obtain ⟨⟨cmd, buf⟩, _, heq⟩ := h
  obtain rfl := congrArg Prod.fst heq
  exact .cons (.plain hsized hlength hfields) .nil

theorem nop_plain {size : ℕ} (htwo : 2 ≤ size) (hmax : size ≤ 0x4001) :
    Encodes (KYTY_PM4 (.ofNat 32 size) IT_NOP R_ZERO :: replicate (size - 1) 0#32) false
      (.nop size) := by
  apply plain (p := .nop size) ⟨htwo, hmax⟩
  · rw [length_replicate]
    dsimp only [Packet.size]
    omega
  · change (replicate (size - 1) 0#32).getD 0 0 &&& _ ≠ _
    rw [getD_eq_getElem _ _ (by rw [length_replicate]; omega), getElem_replicate]
    decide

theorem write_encodes {size_dw dst_low dst_high : BitVec 32} {data : ℕ → BitVec 32}
    (h : single (emit grow buf size_dw
      (KYTY_PM4 (4#32 + args.num_dwords) IT_WRITE_DATA 0 :: control :: dst_low :: dst_high ::
        copied data args.num_dwords)) = some (segments, buf'))
    (hdata : args.data = some data) (hnum : args.num_dwords.toNat ≤ 0x3ffd)
    (hdst : dst_high ++ dst_low = args.address_or_offset) (hcontrol : readWriteControl control = {
      dst_sel := dst_sel
      cache_policy := wide args.cache_policy
      increment := wide args.increment
      write_confirm := if args.dst = 0 then 0 else wide args.write_confirm }) :
    Emits segments
      [writePacket dst_sel args] := by
  have hcopied : (copied data args.num_dwords).length = args.num_dwords.toNat := by
    rw [copied, length_map, length_range]
  have hsize : (writePacket dst_sel args).size = 4 + args.num_dwords.toNat := by
    rw [writePacket, hdata, getD_some]
    dsimp only [size]
    rw [hcopied]
  have hlen : .ofNat 32 (writePacket dst_sel args).size = 4#32 + args.num_dwords := by
    rw [hsize, BitVec.ofNat_add]
    simp
  have hheader : (writePacket dst_sel args).header =
      KYTY_PM4 (4#32 + args.num_dwords) IT_WRITE_DATA 0 := by
    rw [Packet.header, hlen]
    rfl
  rw [← hheader] at h
  apply single_encodes h
  · change 2 ≤ (writePacket dst_sel args).size ∧ (writePacket dst_sel args).size ≤ 0x4001
    omega
  · rw [hsize]
    simp only [length_cons, hcopied]
    omega
  · refine ⟨hdst, ?_, hcontrol⟩
    rw [hdata]
    rfl

end Single

/-! ## Context states -/

section Context

variable {written written' : List Segment × CommandBuffer} {operation : ContextStateOperation}

theorem append_first {size : ℕ} (hsize : size = 3 ∨ size = 5)
    (h : append grow operation.word size ([], buf) = some written) :
    Emits written.1
      [.contextState operation size] := by
  unfold append at h
  rw [map_eq_some_iff] at h
  obtain ⟨⟨cmd, buf⟩, _, heq⟩ := h
  obtain rfl := heq
  refine .cons ?_ .nil
  apply plain (p := .contextState operation size) hsize
  · simp only [length_cons, length_replicate]
    dsimp only [Packet.size]
    omega
  · rfl

variable {packets : List Packet}

/-- What is appended to other packets is read as a `NOP`. -/
theorem append_next {operation : BitVec 32} {size : ℕ} (htwo : 2 ≤ size)
    (hmax : size ≤ 0x4001) (hnonempty : packets ≠ []) (hwritten : Emits written.1 packets)
    (h : append grow operation size written = some written') :
    Emits written'.1
      (packets ++ [.nop size]) := by
  have hsegments : written.1 ≠ [] := by
    intro hnil
    rw [hnil] at hwritten
    exact hnonempty (forall₂_nil_left_iff.mp hwritten)
  unfold append at h
  rw [map_eq_some_iff] at h
  obtain ⟨⟨cmd, buf⟩, _, heq⟩ := h
  obtain rfl := heq
  rw [if_neg hsegments]
  exact rel_append hwritten (.cons (nop_plain htwo hmax) .nil)

theorem append_save_restore_first
    (h : append_save_restore grow operation.word ([], buf) = some written) :
    Emits written.1 [.contextState operation 5, .nop 8, .nop 9] := by
  unfold append_save_restore at h
  simp only [bind_eq_bind, bind_eq_some_iff] at h
  obtain ⟨grown, _, one, hone, two, htwo, hthree⟩ := h
  have hfirst := append_first (.inr rfl) hone
  have hsecond := append_next (by decide) (by decide) (by simp) hfirst htwo
  exact append_next (by decide) (by decide) (by simp) hsecond hthree

theorem append_save_restore_next {operation : BitVec 32}
    (hnonempty : packets ≠ []) (hwritten : Emits written.1 packets)
    (h : append_save_restore grow operation written = some written') :
    Emits written'.1 (packets ++ [.nop 5] ++ [.nop 8] ++ [.nop 9]) := by
  unfold append_save_restore at h
  simp only [bind_eq_bind, bind_eq_some_iff] at h
  obtain ⟨grown, _, one, hone, two, htwo, hthree⟩ := h
  have hstart : Emits (written.1, grown).1 packets := hwritten
  have hfirst := append_next (by decide) (by decide) hnonempty hstart hone
  have hsecond := append_next (by decide) (by decide) (by simp) hfirst htwo
  exact append_next (by decide) (by decide) (by simp) hsecond hthree

theorem unknown_size {operation : BitVec 32} (h : ofWord operation = none) :
    context_state_op_size_dw operation = 0 := by
  unfold ofWord at h
  split_ifs at h with hclear hpush hpop hpushClear
  rw [context_state_op_size_dw, if_neg hclear, if_neg (not_or.mpr ⟨hpush, hpop⟩), if_neg hpushClear]

/-- A context state is one packet with `NOP`s behind it. -/
theorem contextState_encodes (h : AgcDcbContextStateOp grow buf operation.word = some written) :
    Emits written.1 (contextPackets operation) := by
  cases operation with
  | Clear => exact append_first (.inr rfl) h
  | Push =>
    change (append_save_restore grow (word .Push) ([], buf)).bind _ = _ at h
    rw [bind_eq_some_iff] at h
    obtain ⟨one, hone, h⟩ := h
    change (append grow _ 3 one).bind _ = _ at h
    rw [bind_eq_some_iff] at h
    obtain ⟨two, htwo, hthree⟩ := h
    have hfirst := append_save_restore_first hone
    have hsecond := append_next (by decide) (by decide) (by simp) hfirst htwo
    exact append_next (by decide) (by decide) (by simp) hsecond hthree
  | Pop =>
    change (append grow (word .Pop) 3 ([], buf)).bind _ = _ at h
    rw [bind_eq_some_iff] at h
    obtain ⟨one, hone, h⟩ := h
    change (append_save_restore grow _ one).bind _ = _ at h
    rw [bind_eq_some_iff] at h
    obtain ⟨two, htwo, hthree⟩ := h
    have hfirst := append_first (.inl rfl) hone
    have hsecond := append_save_restore_next (by simp) hfirst htwo
    exact append_next (by decide) (by decide) (by simp) hsecond hthree
  | PushClear =>
    change (append_save_restore grow (word .PushClear) ([], buf)).bind _ =
      _ at h
    rw [bind_eq_some_iff] at h
    obtain ⟨one, hone, h⟩ := h
    change (append grow _ 3 one).bind _ = _ at h
    rw [bind_eq_some_iff] at h
    obtain ⟨two, htwo, h⟩ := h
    change (append grow _ 2 two).bind _ = _ at h
    rw [bind_eq_some_iff] at h
    obtain ⟨three, hthree, hfour⟩ := h
    have hfirst := append_save_restore_first hone
    have hsecond := append_next (by decide) (by decide) (by simp) hfirst htwo
    have hthird := append_next (by decide) (by decide) (by simp) hsecond hthree
    exact append_next (by decide) (by decide) (by simp) hthird hfour

end Context

/-! ## Every call -/

section Calls

variable {call : Call}

/-- **What a call writes are its packets.** -/
theorem Call.encodes (hfits : call.Fits) (h : call.build grow buf = some (segments, buf')) :
    Emits segments call.packets := by
  cases call with
  | AgcCbNop size_in_dwords =>
    have hmax : size_in_dwords.toNat ≤ 0x4001 := hfits
    dsimp only [build, Agc.AgcCbNop] at h
    split at h
    · simp [single] at h
    · next hsize =>
      have htwo : 2 ≤ size_in_dwords.toNat := by
        rw [BitVec.lt_def, show (2#32).toNat = 2 by decide] at hsize
        omega
      have hheader : (nop size_in_dwords.toNat).header = KYTY_PM4 size_in_dwords IT_NOP R_ZERO := by
        change KYTY_PM4 (.ofNat 32 size_in_dwords.toNat) IT_NOP 0 = _
        rw [BitVec.ofNat_toNat, BitVec.setWidth_eq]
        rfl
      rw [← hheader] at h
      have hplain := nop_plain htwo hmax
      exact single_encodes h hplain.sized hplain.length hplain.fields
  | AgcCbDispatch x y z modifier =>
    exact single_encodes h (show 2 ≤ 5 ∧ 5 ≤ 0x4001 by decide) rfl rfl
  | AgcCbBranch args =>
    exact single_encodes h (show 2 ≤ 14 ∧ 14 ≤ 0x4001 by decide) rfl (branch_fields hfits)
  | AgcAcbDmaData args =>
    refine single_encodes h (show 2 ≤ 7 ∧ 7 ≤ 0x4001 by decide) rfl ?_
    apply readDmaData_eq _ hfits (by decide) (by decide)
    all_goals
      simp (disch := decide) only [take_or, take_same, take_apart, and_or_distrib_right,
        low_apart, or_zero, zero_or]
    all_goals rfl
  | AgcDcbDmaData engine args block_engine =>
    obtain ⟨hengine, hargs, hblock⟩ := hfits
    refine single_encodes h (show 2 ≤ 7 ∧ 7 ≤ 0x4001 by decide) rfl ?_
    apply readDmaData_eq _ hargs hengine hblock
    all_goals
      simp (disch := decide) only [take_or, take_same, take_apart, take_apart_low,
        and_or_distrib_right, low_same, low_apart, or_zero, zero_or]
  | AgcAcbCopyData args =>
    exact single_encodes h (show 2 ≤ 6 ∧ 6 ≤ 0x4001 by decide) rfl (acbCopy_fields hfits)
  | AgcDcbCopyData args =>
    exact single_encodes h (show 2 ≤ 6 ∧ 6 ≤ 0x4001 by decide) rfl (dcbCopy_fields hfits)
  | AgcAcbDispatchIndirect indirect_args modifier =>
    exact single_encodes h (show 2 ≤ 4 ∧ 4 ≤ 0x4001 by decide) rfl rfl
  | AgcDcbDispatchIndirect data_offset_in_bytes flags =>
    exact single_encodes h (show 2 ≤ 3 ∧ 3 ≤ 0x4001 by decide) rfl rfl
  | AgcAcbWriteData args =>
    obtain ⟨hdst, hargs⟩ := hfits
    dsimp only [build, Agc.AgcAcbWriteData] at h
    split at h
    · simp [single] at h
    · next data hdata =>
      split at h
      · simp [single] at h
      · exact write_encodes h hdata hargs.2.1 (high_low _) (acbWrite_control hdst hargs)
  | AgcDcbWriteData args =>
    obtain ⟨hdst, haligned, hargs⟩ := hfits
    dsimp only [build, Agc.AgcDcbWriteData] at h
    split at h
    · simp [single] at h
    · next data hdata =>
      split at h
      · simp [single] at h
      · have hlow : low args.address_or_offset &&& ~~~0x3#32 = low args.address_or_offset :=
          low_aligned (n := 2) haligned (by decide)
        rw [hlow] at h
        exact write_encodes h hdata hargs.2.1 (high_low _) (dcbWrite_control hdst hargs)
  | AgcDcbJump mode cache_policy target size_in_dwords =>
    exact single_encodes h (show 2 ≤ 4 ∧ 4 ≤ 0x4001 by decide) rfl (jump_fields hfits)
  | AgcDcbRewind initial_state =>
    refine single_encodes h (show 2 ≤ 2 ∧ 2 ≤ 0x4001 by decide) rfl ?_
    rcases eq_zero_or_one hfits with rfl | rfl <;> rfl
  | AgcDcbSetPredication condition op wait_op address count_in_dwords =>
    exact single_encodes h (show 2 ≤ 4 ∧ 4 ≤ 0x4001 by decide) rfl (predication_fields hfits)
  | AgcDcbContextStateOp operation =>
    dsimp only [build] at h
    dsimp only [packets]
    rcases hword : ofWord operation with _ | known
    · rw [Agc.AgcDcbContextStateOp, if_pos (unknown_size hword)] at h
      nomatch h
    · obtain rfl := ofWord_eq_some.mp hword
      exact contextState_encodes h

theorem Emits.length {packets : List Packet} (h : Emits segments packets) :
    (segments.map (·.dwords.length)).sum = (packets.map size).sum := by
  induction h with
  | nil => rfl
  | cons hfirst _ ih => rw [map_cons, map_cons, sum_cons, sum_cons, hfirst.length, ih]

/-- `GetSize` gives the bytes of the packets of a call. -/
theorem Call.getSize_eq (hfits : call.Fits) (h : call.build grow buf = some (segments, buf'))
    {bytes : ℕ} (hbytes : call.getSize = some bytes) : bytes = 4 * (call.packets.map size).sum := by
  cases call with
  | AgcCbNop size_in_dwords =>
    have hmax : size_in_dwords.toNat ≤ 0x4001 := hfits
    cases hbytes
    rw [AgcCbNopGetSize, toNat_mul]
    change (4 * size_in_dwords.toNat) % 2 ^ 32 = 4 * (size_in_dwords.toNat + 0)
    omega
  | AgcCbDispatch | AgcDcbDispatchIndirect | AgcDcbJump
  | AgcDcbRewind => exact (some.inj hbytes).symm
  | AgcDcbWriteData args =>
    have hmax := hfits.2.2.2.1
    cases hbytes
    rw [AgcDcbWriteDataGetSize, BitVec.toNat_add, toNat_mul]
    have hcopied (data : ℕ → BitVec 32) : (copied data args.num_dwords).length =
        args.num_dwords.toNat := by
      rw [copied, length_map, length_range]
    change ((4 * args.num_dwords.toNat) % 2 ^ 32 + 16) % 2 ^ 32 =
      4 * (4 + (copied _ args.num_dwords).length + 0)
    rw [hcopied]
    omega
  | AgcDcbContextStateOp operation =>
    cases hbytes
    dsimp only [build] at h
    rcases hword : ofWord operation with _ | known
    · rw [Agc.AgcDcbContextStateOp, if_pos (unknown_size hword)] at h
      nomatch h
    · obtain rfl := ofWord_eq_some.mp hword
      dsimp only [packets]
      rw [hword]
      cases known <;> rfl
  | _ => exact absurd hbytes (by simp [getSize])

end Calls

end MagnusPS5.Agc
