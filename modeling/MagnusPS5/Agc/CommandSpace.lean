/-
Space in the command buffers of `agc.cpp`: `AllocateDW`, and the functions that write packets.

A function that writes packets is the list of its steps, which end at the first one that fails.
What the guest's callback does is a function of all that was done before. A state has, apart from
the buffer, the regions that were given out and what was written to them. Where the callback only
looks at the buffer, this is the model of `Builders` (`run_agrees`, `contextState_agrees`).
-/
import MagnusPS5.Agc.Builders
import Mathlib.Algebra.Group.Nat.Defs
import Mathlib.Data.Option.Basic

namespace MagnusPS5.Agc.CommandSpace

open Graphics.Pm4 CommandSpace List Nat

/-- The addresses from `start` up to `stop`. -/
structure Region where
  start : ℕ
  stop : ℕ
  deriving DecidableEq

def Region.Apart (a b : Region) : Prop := a.stop ≤ b.start ∨ b.stop ≤ a.start

/-- The place of a packet. -/
def place (cmd size : ℕ) : Region := ⟨cmd, cmd + 4 * size⟩

structure State where
  buf : CommandBuffer
  /-- How often the callback was called. -/
  calls : ℕ
  regions : List Region
  written : List Segment

/-- What the callback does: it refuses, gives a fresh region, or enlarges the one in use. -/
inductive Growth
  | refuse
  | fresh (cursor_up cursor_down : ℕ)
  | enlarge (bytes : ℕ)

def State.grown (σ : State) : Growth → State
  | .refuse => { σ with calls := σ.calls + 1 }
  | .fresh cursor_up cursor_down =>
    { σ with buf := { σ.buf with cursor_up, cursor_down }, calls := σ.calls + 1 }
  | .enlarge bytes =>
    { σ with
      buf := { σ.buf with cursor_down := σ.buf.cursor_down + bytes }
      calls := σ.calls + 1 }

/-- A place of `size` dwords is given out. -/
def State.give (σ : State) (size : ℕ) : State :=
  { σ with
    buf := { σ.buf with cursor_up := σ.buf.cursor_up + 4 * size }
    regions := σ.regions ++ [place σ.buf.cursor_up size] }

def State.write (σ : State) (segment : Segment) : State :=
  { σ with written := σ.written ++ [segment] }

section Steps

variable (grow : State → BitVec 32 → Growth)

def ReserveDW (σ : State) (num_dw : BitVec 32) : Bool × State :=
  if σ.buf.GetAvailableSizeDW < num_dw then
    if σ.buf.callback = 0 then (false, σ)
    else
      let growth := grow σ (num_dw + σ.buf.reserved_dw)
      let σ := σ.grown growth
      match growth with
      | .refuse => (false, σ)
      | _ => (¬ σ.buf.GetAvailableSizeDW < num_dw, σ)
  else (true, σ)

def AllocateDW (σ : State) (size_dw : BitVec 32) : Option ℕ × State :=
  if size_dw = 0 then (none, σ)
  else
    match ReserveDW grow σ size_dw with
    | (false, σ) => (none, σ)
    | (true, σ) => (some σ.buf.cursor_up, σ.give size_dw.toNat)

/-- A step of a function: space is made sure of, or a packet is written. -/
inductive Step
  | reserve (num_dw : BitVec 32)
  | write (size_dw : BitVec 32) (dwords : List (BitVec 32))

/-- Whether all steps were made, the address of the first packet, and what they leave. -/
def run (first : Option ℕ) : List Step → State → Bool × Option ℕ × State
  | [], σ => (true, first, σ)
  | .reserve num_dw :: steps, σ =>
    match ReserveDW grow σ num_dw with
    | (false, σ) => (false, first, σ)
    | (true, σ) => run first steps σ
  | .write size_dw dwords :: steps, σ =>
    match AllocateDW grow σ size_dw with
    | (none, σ) => (false, first, σ)
    | (some cmd, σ) => run (first.or (some cmd)) steps (σ.write ⟨cmd, dwords⟩)

end Steps

/-! ## The functions -/

/-- The first packet of `AgcDcbContextStateOp`. -/
def contextState (operation : BitVec 32) (segment_size_dw : ℕ) : Step :=
  .write (BitVec.ofNat 32 segment_size_dw)
    (KYTY_PM4 (BitVec.ofNat 32 segment_size_dw) IT_NOP R_CONTEXT_STATE :: operation ::
      List.replicate (segment_size_dw - 2) 0)

/-- Another packet of `AgcDcbContextStateOp`. -/
def empty (segment_size_dw : ℕ) : Step :=
  .write (BitVec.ofNat 32 segment_size_dw)
    (KYTY_PM4 (BitVec.ofNat 32 segment_size_dw) IT_NOP R_ZERO ::
      List.replicate (segment_size_dw - 1) 0)

def contextStateSteps (operation : BitVec 32) : List Step :=
  if operation = 0#32 then [contextState operation 5]
  else if operation = 1#32 then
    [.reserve 22, contextState operation 5, empty 8, empty 9, empty 3, empty 2]
  else if operation = 2#32 then
    [contextState operation 3, .reserve 22, empty 5, empty 8, empty 9, empty 2]
  else if operation = 3#32 then
    [.reserve 22, contextState operation 5, empty 8, empty 9, empty 3, empty 2, empty 5]
  else []

structure ShaderRegister where
  offset : BitVec 32
  value : BitVec 32

/-- A packet that sets the registers from an offset on. -/
def setRegisters (offset num_values : BitVec 32) (values : List (BitVec 32)) : Step :=
  .write (num_values + 2) (KYTY_PM4 (num_values + 2) IT_SET_SH_REG 0 :: (offset &&& 0xffff#32) ::
    values)

/-- The registers of each run of offsets that follow one another. -/
def runs (regs : List ShaderRegister) : List (List ShaderRegister) :=
  regs.splitBy fun prev reg => reg.offset = prev.offset + 1

inductive Call
  /-- A function that writes one packet. -/
  | packet (size_dw : BitVec 32) (dwords : List (BitVec 32))
  | AgcDcbContextStateOp (operation : BitVec 32)
  | AgcCbSetShRegisterRangeDirect (offset : BitVec 32) (values : Option (ℕ → BitVec 32))
    (num_values : BitVec 32)
  | AgcCbSetShRegistersDirect (regs : List ShaderRegister)

def Call.steps : Call → List Step
  | packet size_dw dwords => [.write size_dw dwords]
  | AgcDcbContextStateOp operation => contextStateSteps operation
  | AgcCbSetShRegisterRangeDirect offset values num_values =>
    [setRegisters offset num_values
      (values.elim [] fun values => (List.range num_values.toNat).map values)]
  | AgcCbSetShRegistersDirect regs =>
    (runs regs).map fun run => setRegisters (run.head?.elim 0 (·.offset))
      (BitVec.ofNat 32 run.length) (run.map (·.value))

/-- What a call returns, and the state after it. -/
def Call.result (grow : State → BitVec 32 → Growth) (σ : State) (call : Call) : Option ℕ × State :=
  let (complete, first, σ) := run grow none call.steps σ
  match call with
  | AgcCbSetShRegistersDirect _ => (first, σ)
  | _ => (if complete then first else none, σ)

/-! ## Runs -/

def Step.size : Step → BitVec 32
  | reserve num_dw => num_dw
  | write size_dw _ => size_dw

/-- The dwords of a packet are as many as its size says, or fewer. -/
def Step.Fits : Step → Bool
  | reserve _ => true
  | write size_dw dwords => 0 < size_dw.toNat ∧ dwords.length ≤ size_dw.toNat

/-- The dwords that steps need. -/
def needed : List Step → ℕ
  | [] => 0
  | .reserve num_dw :: steps => max num_dw.toNat (needed steps)
  | .write size_dw _ :: steps => size_dw.toNat + needed steps

/-- Each packet fits its size, and where there is space for the first step there is space for
all. -/
def Call.Fits (grow : State → BitVec 32 → Growth) (σ : State) (call : Call) : Prop :=
  (∀ step ∈ call.steps, step.Fits) ∧
  ∀ step ∈ call.steps.head?, (ReserveDW grow σ step.size).1 = true →
    needed call.steps ≤ (ReserveDW grow σ step.size).2.buf.GetAvailableSizeDW.toNat

/-- The callback gives memory that was not given out. -/
structure Promised (grow : State → BitVec 32 → Growth) : Prop where
  fresh : ∀ σ num_dw cursor_up cursor_down, grow σ num_dw = .fresh cursor_up cursor_down →
    cursor_up ≤ cursor_down ∧ ∀ region ∈ σ.regions, Region.Apart ⟨cursor_up, cursor_down⟩ region
  enlarge : ∀ σ num_dw bytes, grow σ num_dw = .enlarge bytes → ∀ region ∈ σ.regions,
    Region.Apart ⟨σ.buf.cursor_up, σ.buf.cursor_down + bytes⟩ region

/-- The states of runs of fitting calls. -/
inductive Reached (grow : State → BitVec 32 → Growth) (buf : CommandBuffer) : State → Prop
  | start (h : buf.cursor_up ≤ buf.cursor_down) : Reached grow buf ⟨buf, 0, [], []⟩
  | call {σ : State} (h : Reached grow buf σ) (call : Call) (hfits : call.Fits grow σ) :
      Reached grow buf (call.result grow σ).2

/-- The dwords of the packets that steps write. -/
def packets (steps : List Step) : List (List (BitVec 32)) :=
  steps.filterMap fun step => match step with
    | .reserve _ => none
    | .write _ dwords => some dwords

/-- All packets are appended and the first is returned, or nothing is done but what the callback
did, and nothing is returned. -/
def AllOrNothing (grow : State → BitVec 32 → Growth) (σ : State) (call : Call) : Prop :=
  (∃ segments, segments.map Segment.dwords = packets call.steps ∧
    (call.result grow σ).2.written = σ.written ++ segments ∧
    (call.result grow σ).1 = segments.head?.map Segment.cmd) ∨
  (call.result grow σ).1 = none ∧
    ((call.result grow σ).2 = σ ∨ ∃ num_dw, (call.result grow σ).2 = (ReserveDW grow σ num_dw).2)

/-- What was given out is apart from each other and from what the buffer has left, and what was
written is inside. -/
structure Inv (σ : State) : Prop where
  ordered : σ.buf.cursor_up ≤ σ.buf.cursor_down
  apart : σ.regions.Pairwise Region.Apart
  free : ∀ region ∈ σ.regions, Region.Apart ⟨σ.buf.cursor_up, σ.buf.cursor_down⟩ region
  inside : ∀ segment ∈ σ.written, ∃ region ∈ σ.regions,
    region.start = segment.cmd ∧ segment.cmd + 4 * segment.dwords.length ≤ region.stop

variable {grow : State → BitVec 32 → Growth} {σ σ' : State} {n : ℕ} {num_dw size_dw : BitVec 32}
  {steps : List Step}

theorem le_available_iff {buf : CommandBuffer} (hpos : 0 < n) (hn : n < 2 ^ 32) :
    n ≤ buf.GetAvailableSizeDW.toNat ↔
      buf.cursor_up ≠ 0 ∧ buf.cursor_up + 4 * (n + buf.reserved_dw.toNat) ≤ buf.cursor_down := by
  unfold CommandBuffer.GetAvailableSizeDW
  dsimp only
  split_ifs <;> simp <;> omega

theorem reserveDW_of_available (h : num_dw.toNat ≤ σ.buf.GetAvailableSizeDW.toNat) :
    ReserveDW grow σ num_dw = (true, σ) := by
  rw [ReserveDW, if_neg (by rw [BitVec.lt_def]; omega)]

/-- The callback is asked at most once, and the space is there if it was made sure of. -/
theorem reserveDW_cases (grow : State → BitVec 32 → Growth) (σ : State) (num_dw : BitVec 32) :
    ((ReserveDW grow σ num_dw).2 = σ ∨
      ∃ requested, (ReserveDW grow σ num_dw).2 = σ.grown (grow σ requested)) ∧
    ((ReserveDW grow σ num_dw).1 = true →
      num_dw.toNat ≤ (ReserveDW grow σ num_dw).2.buf.GetAvailableSizeDW.toNat) := by
  unfold ReserveDW
  split_ifs with havailable hcallback
  · exact ⟨.inl rfl, nofun⟩
  · cases hgrowth : grow σ (num_dw + σ.buf.reserved_dw) with
    | refuse => exact ⟨.inr ⟨_, by rw [hgrowth]⟩, nofun⟩
    | fresh | enlarge =>
      refine ⟨.inr ⟨_, by rw [hgrowth]⟩, fun h => ?_⟩
      simpa [BitVec.lt_def] using h
  · refine ⟨.inl rfl, fun _ => ?_⟩
    simpa [BitVec.lt_def] using havailable

theorem grown_kept (σ : State) (growth : Growth) :
    (σ.grown growth).regions = σ.regions ∧ (σ.grown growth).written = σ.written := by
  cases growth <;> exact ⟨rfl, rfl⟩

theorem reserveDW_kept (grow : State → BitVec 32 → Growth) (σ : State) (num_dw : BitVec 32) :
    (ReserveDW grow σ num_dw).2.regions = σ.regions ∧
      (ReserveDW grow σ num_dw).2.written = σ.written := by
  obtain ⟨hsame | ⟨requested, hgrown⟩, -⟩ := reserveDW_cases grow σ num_dw
  · rw [hsame]
    exact ⟨rfl, rfl⟩
  · rw [hgrown]
    exact grown_kept σ _

theorem Inv.reserve (h : Inv σ) (hgrow : Promised grow) (num_dw : BitVec 32) :
    Inv (ReserveDW grow σ num_dw).2 := by
  obtain ⟨hsame | ⟨requested, hgrown⟩, -⟩ := reserveDW_cases grow σ num_dw
  · rwa [hsame]
  · rw [hgrown]
    cases hgrowth : grow σ requested with
    | refuse => exact ⟨h.ordered, h.apart, h.free, h.inside⟩
    | fresh cursor_up cursor_down =>
      obtain ⟨hordered, hfree⟩ := hgrow.fresh σ requested cursor_up cursor_down hgrowth
      exact ⟨hordered, h.apart, hfree, h.inside⟩
    | enlarge bytes =>
      exact ⟨Nat.le_trans h.ordered (Nat.le_add_right _ _), h.apart,
        hgrow.enlarge σ requested bytes hgrowth, h.inside⟩

theorem Inv.give (h : Inv σ) (hdown : σ.buf.cursor_up + 4 * n ≤ σ.buf.cursor_down)
    {dwords : List (BitVec 32)} (hdwords : dwords.length ≤ n) :
    Inv ((σ.give n).write ⟨σ.buf.cursor_up, dwords⟩) where
  ordered := hdown
  apart := by
    refine pairwise_append.mpr ⟨h.apart, pairwise_singleton _ _, fun a ha b hb => ?_⟩
    rw [mem_singleton.mp hb]
    have hfree := h.free a ha
    simp only [Region.Apart, place] at hfree ⊢
    omega
  free region hregion := by
    rcases mem_append.mp hregion with hold | hnew
    · have hfree := h.free region hold
      simp only [Region.Apart, State.write, State.give] at hfree ⊢
      omega
    · rw [mem_singleton.mp hnew]
      exact .inr (Nat.le_refl _)
  inside segment hsegment := by
    rcases mem_append.mp hsegment with hold | hnew
    · obtain ⟨region, hregion, hinside⟩ := h.inside segment hold
      exact ⟨region, mem_append_left _ hregion, hinside⟩
    · rw [mem_singleton.mp hnew]
      refine ⟨_, mem_append_right _ mem_cons_self, rfl, ?_⟩
      simp only [place]
      omega

theorem available_give (hsize : 0 < size_dw.toNat)
    (h : size_dw.toNat + n ≤ σ.buf.GetAvailableSizeDW.toNat) :
    n ≤ (σ.give size_dw.toNat).buf.GetAvailableSizeDW.toNat := by
  rcases Nat.eq_zero_or_pos n with rfl | hn
  · exact zero_le _
  · have hlt := Nat.lt_of_le_of_lt h σ.buf.GetAvailableSizeDW.isLt
    obtain ⟨-, hdown⟩ := (le_available_iff (by omega) hlt).mp h
    refine (le_available_iff hn (by omega)).mpr ?_
    simp only [State.give]
    omega

theorem allocateDW_eq {ok : Bool} (hsize : 0 < size_dw.toNat)
    (h : ReserveDW grow σ size_dw = (ok, σ')) : AllocateDW grow σ size_dw =
      if ok then (some σ'.buf.cursor_up, σ'.give size_dw.toNat) else (none, σ') := by
  have hne : size_dw ≠ 0 := by
    rintro rfl
    nomatch hsize
  rw [AllocateDW, if_neg hne, h]
  cases ok <;> rfl

/-- **Where there is space for all steps, all are made.** -/
theorem Inv.run (h : Inv σ) (first : Option ℕ)
    (hroom : needed steps ≤ σ.buf.GetAvailableSizeDW.toNat)
    (hfits : ∀ step ∈ steps, step.Fits) : ∃ segments σ', run grow first steps σ =
        (true, first.or (segments.head?.map Segment.cmd), σ') ∧
      Inv σ' ∧ σ'.written = σ.written ++ segments ∧
      segments.map Segment.dwords = packets steps := by
  induction steps generalizing σ first with
  | nil => exact ⟨[], σ, by simp [run], h, (append_nil _).symm, rfl⟩
  | cons step steps ih =>
    have htail := fun step hmem => hfits step (.tail _ hmem)
    cases step with
    | reserve num_dw =>
      obtain ⟨hnow, hrest⟩ := Nat.max_le.mp hroom
      rw [run, reserveDW_of_available hnow]
      exact ih h first hrest htail
    | write size_dw dwords =>
      obtain ⟨hpos, hdwords⟩ := of_decide_eq_true (hfits _ mem_cons_self)
      have hnow := Nat.le_trans (Nat.le_add_right _ _) hroom
      obtain ⟨-, hdown⟩ := (le_available_iff hpos size_dw.isLt).mp hnow
      obtain ⟨segments, σ', hrun, hinv, hwritten, hpackets⟩ :=
        ih (h.give (by omega) hdwords) (first.or (some σ.buf.cursor_up))
          (available_give hpos hroom) htail
      refine ⟨⟨σ.buf.cursor_up, dwords⟩ :: segments, σ', ?_, hinv, ?_, ?_⟩
      · rw [run, allocateDW_eq hpos (reserveDW_of_available hnow)]
        exact hrun.trans (by cases first <;> rfl)
      · rw [hwritten]
        exact append_assoc ..
      · exact congrArg (dwords :: ·) hpackets

/-- Steps begin with making sure of space for the first one, which is there afterwards. -/
theorem run_cons {step : Step} (hfits : step.Fits) (first : Option ℕ) :
    run grow first (step :: steps) σ =
      if (ReserveDW grow σ step.size).1 then
        run grow first (step :: steps) (ReserveDW grow σ step.size).2
      else (false, first, (ReserveDW grow σ step.size).2) := by
  have hroom := (reserveDW_cases grow σ step.size).2
  rcases hreserve : ReserveDW grow σ step.size with ⟨ok, σ'⟩
  rw [hreserve] at hroom
  have hagain := fun hok => @reserveDW_of_available grow _ _ (hroom hok)
  cases step with
  | reserve num_dw =>
    simp only [Step.size] at hreserve hagain
    cases ok with
    | false => simp [run, hreserve]
    | true => simp [run, hreserve, hagain]
  | write size_dw dwords =>
    simp only [Step.size] at hreserve hagain
    obtain ⟨hpos, -⟩ := of_decide_eq_true hfits
    have hallocate := allocateDW_eq hpos hreserve
    cases ok with
    | false => simp [run, hallocate]
    | true => simp [run, hallocate, allocateDW_eq hpos (hagain rfl)]

theorem Call.result_of_run {call : Call} {complete : Bool} {first : Option ℕ}
    (h : run grow none call.steps σ = (complete, first, σ'))
    (hfirst : complete = false → first = none) : call.result grow σ = (first, σ') := by
  unfold Call.result
  rw [h]
  cases call <;> cases complete <;> simp_all

/-- **One call** keeps what was given out apart, and appends all of its packets or none. -/
theorem Inv.call (h : Inv σ) (hgrow : Promised grow) {call : Call} (hfits : call.Fits grow σ) :
    Inv (call.result grow σ).2 ∧ AllOrNothing grow σ call := by
  rcases hsteps : call.steps with _ | ⟨step, steps⟩
  · have hresult : call.result grow σ = (none, σ) :=
      Call.result_of_run (by rw [hsteps]; rfl) (fun _ => rfl)
    rw [AllOrNothing, hresult]
    exact ⟨h, .inr ⟨rfl, .inl rfl⟩⟩
  have hinv := h.reserve hgrow step.size
  have hwritten := (reserveDW_kept grow σ step.size).2
  have hrun := @run_cons grow σ steps step (hfits.1 step (hsteps ▸ .head _)) none
  rw [← hsteps] at hrun
  cases hstep : (ReserveDW grow σ step.size).1 with
  | false =>
    rw [hstep] at hrun
    rw [AllOrNothing, Call.result_of_run hrun fun _ => rfl]
    exact ⟨hinv, .inr ⟨rfl, .inr ⟨_, rfl⟩⟩⟩
  | true =>
    obtain ⟨segments, σ', hall, hinv', hwritten', hpackets⟩ :=
      hinv.run none (hfits.2 step (by rw [hsteps]; rfl) hstep) hfits.1
    rw [hstep, if_pos rfl, hall] at hrun
    rw [AllOrNothing, Call.result_of_run hrun nofun]
    refine ⟨hinv', .inl ⟨segments, hpackets, ?_, rfl⟩⟩
    rw [hwritten', hwritten]

theorem Reached.inv {buf : CommandBuffer} (hgrow : Promised grow) (h : Reached grow buf σ) :
    Inv σ := by
  induction h with
  | start hordered => exact ⟨hordered, .nil, nofun, nofun⟩
  | call _ call hfits ih => exact (ih.call hgrow hfits).1

/-- **Allocation is sound, and functions append all of their packets or none**, in every run of
fitting calls. -/
theorem builders_all_or_nothing {buf : CommandBuffer} (hgrow : Promised grow)
    (h : Reached grow buf σ) :
    σ.regions.Pairwise Region.Apart ∧
    (∀ segment ∈ σ.written, ∃ region ∈ σ.regions,
      region.start = segment.cmd ∧ segment.cmd + 4 * segment.dwords.length ≤ region.stop) ∧
    (∀ size_dw cmd, (AllocateDW grow σ size_dw).1 = some cmd →
      let buf := (ReserveDW grow σ size_dw).2.buf
      buf.cursor_up ≤ cmd ∧
        cmd + 4 * size_dw.toNat ≤ buf.cursor_down - 4 * buf.reserved_dw.toNat ∧
        ∀ region ∈ σ.regions, Region.Apart (place cmd size_dw.toNat) region) ∧
    ∀ call : Call, call.Fits grow σ → AllOrNothing grow σ call := by
  have hinv := h.inv hgrow
  refine ⟨hinv.apart, hinv.inside, fun size_dw cmd hcmd => ?_, fun call hfits =>
    (hinv.call hgrow hfits).2⟩
  have hreserved := hinv.reserve hgrow size_dw
  have hregions := (reserveDW_kept grow σ size_dw).1
  have hcases := (reserveDW_cases grow σ size_dw).2
  rcases hreserve : ReserveDW grow σ size_dw with ⟨ok, σ'⟩
  simp only [hreserve] at hreserved hregions hcases ⊢
  by_cases hpos : 0 < size_dw.toNat
  · rw [allocateDW_eq hpos hreserve] at hcmd
    cases ok with
    | false => cases hcmd
    | true =>
      cases hcmd
      obtain ⟨-, hdown⟩ := (le_available_iff hpos size_dw.isLt).mp (hcases rfl)
      refine ⟨Nat.le_refl _, by omega, fun region hregion => ?_⟩
      have hfree := hreserved.free region (hregions ▸ hregion)
      simp only [Region.Apart, place] at hfree ⊢
      omega
  · have hzero : size_dw = 0 := BitVec.eq_of_toNat_eq (by simp; omega)
    rw [AllocateDW, if_pos hzero] at hcmd
    cases hcmd

/-! ## The functions of `Builders` -/

/-- A callback that does the same to a buffer in both models. -/
def Agrees (grow : State → BitVec 32 → Growth)
    (callback : CommandBuffer → BitVec 32 → Option CommandBuffer) : Prop :=
  ∀ σ requested, callback σ.buf requested =
    match grow σ requested with
    | .refuse => none
    | growth => some (σ.grown growth).buf

section Agrees

variable {callback : CommandBuffer → BitVec 32 → Option CommandBuffer} (h : Agrees grow callback)

include h

theorem reserveDW_agrees (σ : State) (num_dw : BitVec 32) : σ.buf.ReserveDW callback num_dw =
    if (ReserveDW grow σ num_dw).1 then some (ReserveDW grow σ num_dw).2.buf else none := by
  have hcallback := h σ (num_dw + σ.buf.reserved_dw)
  unfold CommandBuffer.ReserveDW ReserveDW
  by_cases havailable : σ.buf.GetAvailableSizeDW < num_dw
  · rw [if_pos havailable, if_pos havailable]
    by_cases hnull : σ.buf.callback = 0
    · rw [if_pos hnull, if_pos hnull]
      rfl
    · rw [if_neg hnull, if_neg hnull, hcallback]
      cases grow σ (num_dw + σ.buf.reserved_dw) with
      | refuse => rfl
      | fresh | enlarge =>
        dsimp only
        split_ifs <;> simp_all
  · rw [if_neg havailable, if_neg havailable]
    rfl

theorem allocateDW_agrees (σ : State) (size_dw : BitVec 32) : σ.buf.AllocateDW callback size_dw =
    (AllocateDW grow σ size_dw).1.map fun cmd => (cmd, (AllocateDW grow σ size_dw).2.buf) := by
  unfold CommandBuffer.AllocateDW AllocateDW
  rw [reserveDW_agrees h]
  by_cases hsize : size_dw = 0
  · rw [if_pos hsize, if_pos hsize]
    rfl
  · rw [if_neg hsize, if_neg hsize]
    rcases ReserveDW grow σ size_dw with ⟨_ | _, σ'⟩ <;> rfl

/-- A step in `Builders`: what was written, and the buffer. -/
def Step.append (callback : CommandBuffer → BitVec 32 → Option CommandBuffer)
    (written : List Segment × CommandBuffer) : Step → Option (List Segment × CommandBuffer)
  | reserve num_dw => (written.2.ReserveDW callback num_dw).map (written.1, ·)
  | write size_dw dwords => (written.2.AllocateDW callback size_dw).map fun (cmd, buf) =>
    (written.1 ++ [⟨cmd, dwords⟩], buf)

/-- **Steps** are what the functions of `Builders` do one after the other. -/
theorem run_agrees (first : Option ℕ) : steps.foldlM (Step.append callback) (σ.written, σ.buf) =
    if (run grow first steps σ).1 then
      some ((run grow first steps σ).2.2.written, (run grow first steps σ).2.2.buf)
    else none := by
  induction steps generalizing σ first with
  | nil => rfl
  | cons step steps ih =>
    rw [List.foldlM_cons]
    cases step with
    | reserve num_dw =>
      have hwritten := (reserveDW_kept grow σ num_dw).2
      rw [Step.append, reserveDW_agrees h, run, ← hwritten]
      rcases ReserveDW grow σ num_dw with ⟨_ | _, σ'⟩
      · rfl
      · exact ih first
    | write size_dw dwords =>
      have hwritten : (AllocateDW grow σ size_dw).2.written = σ.written := by
        have hkept := (reserveDW_kept grow σ size_dw).2
        unfold AllocateDW
        split_ifs
        · rfl
        · revert hkept
          rcases ReserveDW grow σ size_dw with ⟨_ | _, σ'⟩ <;> exact id
      rw [Step.append, allocateDW_agrees h, run, ← hwritten]
      rcases AllocateDW grow σ size_dw with ⟨_ | cmd, σ'⟩
      · rfl
      · exact ih (σ := σ'.write ⟨cmd, dwords⟩) _

omit h in
theorem contextState_append {operation : BitVec 32} (buf : CommandBuffer)
    (hknown : context_state_op_size_dw operation ≠ 0) :
    Agc.AgcDcbContextStateOp callback buf operation =
      (contextStateSteps operation).foldlM (Step.append callback) ([], buf) := by
  unfold Agc.AgcDcbContextStateOp contextStateSteps
  rw [if_neg hknown]
  split_ifs with hclear hpush hpop hpushClear
  case neg => simp [context_state_op_size_dw, *] at hknown
  all_goals
    simp [Agc.append, append_save_restore, Step.append, contextState, empty, Option.bind_map,
      Option.bind_assoc]

/-- **A context state** is written as in `Builders`. -/
theorem contextState_agrees {operation : BitVec 32} (hnone : σ.written = [])
    (hknown : context_state_op_size_dw operation ≠ 0) :
    let (complete, _, σ') := run grow none (contextStateSteps operation) σ
    Agc.AgcDcbContextStateOp callback σ.buf operation =
      if complete then some (σ'.written, σ'.buf) else none := by
  rw [contextState_append σ.buf hknown, ← hnone]
  exact run_agrees h none

end Agrees

/-- A new buffer, without a callback. -/
def withSpace (dwords : ℕ) : State := ⟨⟨4096, 4096 + 4 * dwords, 0, 0⟩, 0, [], []⟩

/-- A push of the context state where there is no space for its last two packets, and a range of
as many registers as 32 bits count. -/
theorem push_half_done :
    let push := (Call.AgcDcbContextStateOp 1).result (fun _ _ => .refuse) (withSpace 24)
    let range := (Call.AgcCbSetShRegisterRangeDirect 0 none 0xffffffff).result
      (fun _ _ => .refuse) (withSpace 24)
    (push.1 = none ∧ push.2.written.length = 3 ∧ push.2.buf.cursor_up = 4096 + 4 * 22) ∧
      range.2.regions = [place 4096 1] ∧
      range.2.written.map (·.dwords.length) = [2] := by
  decide

instance (a b : Region) : Decidable (a.Apart b) := inferInstanceAs (Decidable (_ ∨ _))

/-- A callback that has 27 dwords more. -/
def once (σ : State) (_ : BitVec 32) : Growth :=
  if ∀ region ∈ σ.regions, Region.Apart ⟨8192, 8300⟩ region then .fresh 8192 8300 else .refuse

/-- A push of the context state behind a packet of six dwords, for which the callback is asked. -/
theorem builders_all_or_nothing_push :
    let σ := ((Call.packet 6 [0, 0, 0, 0, 0, 0]).result once ⟨⟨4096, 4204, 1, 0⟩, 0, [], []⟩).2
    ((Call.AgcDcbContextStateOp 1).result once σ).1 = some 8192 ∧
      AllOrNothing once σ (.AgcDcbContextStateOp 1) := by
  have hgrow : Promised once := by
    constructor <;> intro σ num_dw <;> unfold once <;> split_ifs with hfree
    · rintro _ _ ⟨⟩
      exact ⟨by decide, hfree⟩
    all_goals nofun
  exact ⟨by decide, (builders_all_or_nothing hgrow (.call (.start (by decide)) _
    ⟨by decide, by decide⟩)).2.2.2 _ ⟨by decide, by decide⟩⟩

end MagnusPS5.Agc.CommandSpace
