/-
`GuestGpu::Process` for a graphics submission, and the counters of `CommandProcessor` that its two
streams wait for (`graphicsRun.cpp`).

A packet is executed or suspends its stream, and then comes again. Packets that do nothing to the
counters may suspend too, and `ready` says when they do not. `log` is not in the source: it keeps
the packets that were executed, the last one first.
-/
import MagnusPS5.Graphics.Pm4ExecutionRun
import Mathlib

namespace MagnusPS5.Graphics.ConstantEngine

open List

inductive ConstantPacket
  | incrementCe | waitDeDiff (diff : BitVec 32) | other
  deriving DecidableEq

inductive DrawPacket
  | incrementDe | waitCe | other
  deriving DecidableEq

abbrev Packet := ConstantPacket ⊕ DrawPacket

/-- Whether a packet that does nothing to the counters can go on, by what is left behind it. -/
abbrev Ready := (ℕ → Bool) × (ℕ → Bool)

/-- The counters of `CommandProcessor`, and what was executed. -/
structure Processor where
  m_de_count : BitVec 32 := 0
  m_ce_count : BitVec 32 := 0
  m_ce_complete : Bool := false
  log : List Packet := []

/-- What comes of a packet: the process stops, the stream is suspended, or it is executed. -/
inductive Outcome
  | exit | suspended | executed (cp : Processor)

def Processor.packet (cp : Processor) (ready : Bool) : Packet → Outcome
  | .inl .incrementCe => .executed { cp with
      m_ce_count := cp.m_ce_count + 1, log := .inl .incrementCe :: cp.log }
  | .inl (.waitDeDiff diff) =>
    if cp.m_de_count > cp.m_ce_count then .exit
    else if cp.m_ce_count - cp.m_de_count ≥ diff then .suspended
    else .executed { cp with log := .inl (.waitDeDiff diff) :: cp.log }
  | .inr .incrementDe => .executed { cp with
      m_de_count := cp.m_de_count + 1, log := .inr .incrementDe :: cp.log }
  | .inr .waitCe =>
    if cp.m_ce_count ≤ cp.m_de_count ∧ cp.m_ce_complete = false then .suspended
    else .executed { cp with log := .inr .waitCe :: cp.log }
  | p => if ready then .executed { cp with log := p :: cp.log } else .suspended

/-- `CommandProcessor::Process`: what is left of a stream. -/
def processStream {P : Type} (side : P → Packet) (ready : ℕ → Bool) :
    List P → Processor → Option (List P × Processor)
  | [], cp => some ([], cp)
  | p :: rest, cp =>
    match cp.packet (ready rest.length) (side p) with
    | .exit => none
    | .suspended => some (p :: rest, cp)
    | .executed cp => processStream side ready rest cp

/-- A stream in a round of the loop: one that is complete is left alone. -/
def turn {P : Type} (side : P → Packet) (complete : Bool) (ready : ℕ → Bool) (stream : List P)
    (cp : Processor) : Option (List P × Processor) :=
  if complete then some (stream, cp) else processStream side ready stream cp

/-- A graphics submission: what is left of its streams, and its processor. -/
structure Submission where
  constant_commands : List ConstantPacket
  commands : List DrawPacket
  constant_complete : Bool := false
  command_complete : Bool := false
  started : Bool := false
  cp : Processor := {}

namespace Submission

/-- One round of the loop, and `round_progress`. -/
def round (s : Submission) (ready : Ready) : Option (Submission × Bool) := do
  let (constants, cp) ← turn .inl s.constant_complete ready.1 s.constant_commands s.cp
  let constant_complete := s.constant_complete || constants.isEmpty
  let (draws, cp) ← turn .inr s.command_complete ready.2 s.commands
    { cp with m_ce_complete := constant_complete }
  some ({ s with
    constant_commands := constants, commands := draws, constant_complete
    command_complete := s.command_complete || draws.isEmpty, cp },
    decide (constants.length ≠ s.constant_commands.length ∨ draws.length ≠ s.commands.length))

/-- The loop, with what other packets wait for in each round; the result says whether the
submission is complete, and what they waited for in the last round. -/
def rounds (ready : ℕ → Ready) : ℕ → Submission → Option (Submission × Bool × Ready)
  | 0, _ => none
  | fuel + 1, s =>
    (s.round (ready fuel)).bind fun (s, round_progress) =>
      let complete := s.command_complete && s.constant_complete
      if complete || !round_progress then some (s, complete, ready fuel) else rounds ready fuel s

/-- `GuestGpu::Process`. -/
def process (s : Submission) (ready : ℕ → Ready) : Option (Submission × Bool × Ready) :=
  let s := if s.started then s
    else { s with
      started := true
      cp := { s.cp with m_de_count := 0, m_ce_count := 0, m_ce_complete := false } }
  let s := { s with constant_complete := s.constant_complete || s.constant_commands.isEmpty }
  rounds ready (s.constant_commands.length + s.commands.length + 1) s

end Submission

/-! ## What the streams wait for -/

variable (log : List Packet)

/-- The packets of the constant stream that were executed. -/
def constantsOf : List ConstantPacket := (log.filterMap Sum.getLeft?).reverse

def drawsOf : List DrawPacket := (log.filterMap Sum.getRight?).reverse

def ceCount : ℕ := (constantsOf log).count .incrementCe

def deCount : ℕ := (drawsOf log).count .incrementDe

/-- What holds when a packet is executed after the packets in `log`. -/
def Allowed (constants : List ConstantPacket) (log : List Packet) : Packet → Prop
  | .inr .waitCe => deCount log < ceCount log ∨ constantsOf log = constants
  | .inl (.waitDeDiff diff) => deCount log ≤ ceCount log ∧ ceCount log - deCount log < diff.toNat
  | _ => True

/-- Every packet in the log was executed when it might be. -/
def Lawful (constants : List ConstantPacket) : List Packet → Prop
  | [] => True
  | p :: log => Allowed constants log p ∧ Lawful constants log

/-- Each `INCREMENT_DE_COUNTER` has a `WAIT_ON_CE_COUNTER` of its own before it; the flag says
that there was one. -/
def OwnWaits : Bool → List DrawPacket → Prop
  | _, [] => True
  | _, .waitCe :: rest => OwnWaits true rest
  | waited, .incrementDe :: rest => waited = true ∧ OwnWaits false rest
  | waited, .other :: rest => OwnWaits waited rest

/-- Slices of a submission with the given streams. -/
inductive Reached (constants : List ConstantPacket) (draws : List DrawPacket) : Submission → Prop
  | submitted : Reached constants draws
      { constant_commands := constants, commands := draws }
  | slice {s t : Submission} (ready : ℕ → Ready) (complete : Bool) (last : Ready)
      (before : Reached constants draws s) (after : s.process ready = some (t, complete, last)) :
      Reached constants draws t

/-! ## One packet -/

variable {constants left rest : List ConstantPacket} {draws more : List DrawPacket}
  {cp cp' : Processor} {waited ready : Bool} {log : List Packet} {p : Packet}

@[simp] theorem ceCount_cons (p : Packet) (log : List Packet) :
    ceCount (p :: log) = ceCount log + if p = .inl .incrementCe then 1 else 0 := by
  unfold ceCount constantsOf
  rcases p with p | p <;> simp [filterMap_cons, count_singleton]

@[simp] theorem deCount_cons (p : Packet) (log : List Packet) :
    deCount (p :: log) = deCount log + if p = .inr .incrementDe then 1 else 0 := by
  unfold deCount drawsOf
  rcases p with p | p <;> simp [filterMap_cons, count_singleton]

/-- While the constant stream runs, the counters are those of the log, and a draw that has waited
may still go on. -/
def Live (waited : Bool) (cp : Processor) : Prop :=
  cp.m_ce_count.toNat = ceCount cp.log ∧ cp.m_de_count.toNat = deCount cp.log ∧
    deCount cp.log ≤ ceCount cp.log ∧ (waited = true → deCount cp.log < ceCount cp.log)

theorem Live.logged (h : Live waited cp) (hce : p ≠ .inl .incrementCe)
    (hde : p ≠ .inr .incrementDe) : Live waited { cp with log := p :: cp.log } := by
  simpa [Live, hce, hde] using h

/-- What is left of the streams, against what was executed. -/
structure Inv (constants left : List ConstantPacket) (draws more : List DrawPacket)
    (cp : Processor) : Prop where
  lawful : Lawful constants cp.log
  executed : constantsOf cp.log ++ left = constants
  drawn : drawsOf cp.log ++ more = draws
  own : ∃ waited, OwnWaits waited more ∧ (left ≠ [] → Live waited cp)
  complete : cp.m_ce_complete = true → left = []

theorem Inv.constantPacket {p : ConstantPacket} (h : Inv constants (p :: rest) draws more cp)
    (hcount : constants.count .incrementCe < 2 ^ 32) :
    cp.packet ready (.inl p) = .suspended ∨ ∃ cp', cp.packet ready (.inl p) = .executed cp' ∧
      Inv constants rest draws more cp' := by
  obtain ⟨hlawful, hexecuted, hdrawn, ⟨waited, hown, hlive⟩, hflag⟩ := h
  obtain ⟨hce, hde, hle, hwaited⟩ := hlive (cons_ne_nil _ _)
  have hnext : constantsOf (.inl p :: cp.log) ++ rest = constants := by
    simpa [constantsOf] using hexecuted
  have hcomplete : cp.m_ce_complete = true → rest = [] := fun hc => nomatch hflag hc
  unfold Processor.packet
  cases p with
  | incrementCe =>
    have hlt : ceCount cp.log + 1 < 2 ^ 32 := by
      rw [← hexecuted, count_append, count_cons_self] at hcount
      unfold ceCount
      omega
    refine .inr ⟨_, rfl, ⟨trivial, hlawful⟩, hnext, hdrawn, ⟨waited, hown, fun _ =>
      ⟨?_, ?_, ?_, ?_⟩⟩, hcomplete⟩
    · simpa [BitVec.toNat_add, hce] using hlt
    · simpa using hde
    · simpa using Nat.le_succ_of_le hle
    · simpa using fun hw => Nat.lt_succ_of_lt (hwaited hw)
  | waitDeDiff diff =>
    dsimp only
    rw [if_neg (by rw [gt_iff_lt, BitVec.lt_def]; omega)]
    split_ifs with hdiff
    · exact .inl rfl
    · rw [ge_iff_le, BitVec.le_def, BitVec.toNat_sub_of_le (by rw [BitVec.le_def]; omega)] at hdiff
      exact .inr ⟨_, rfl, ⟨⟨hle, by omega⟩, hlawful⟩, hnext, hdrawn, ⟨waited, hown, fun _ =>
        (hlive (cons_ne_nil _ _)).logged nofun nofun⟩, hcomplete⟩
  | other =>
    cases ready with
    | true =>
      exact .inr ⟨_, rfl, ⟨trivial, hlawful⟩, hnext, hdrawn, ⟨waited, hown, fun _ =>
        (hlive (cons_ne_nil _ _)).logged nofun nofun⟩, hcomplete⟩
    | false => exact .inl rfl

theorem Inv.drawPacket {p : DrawPacket} (h : Inv constants left draws (p :: more) cp) :
    cp.packet ready (.inr p) = .suspended ∨ ∃ cp', cp.packet ready (.inr p) = .executed cp' ∧
      Inv constants left draws more cp' := by
  obtain ⟨hlawful, hexecuted, hdrawn, ⟨waited, hown, hlive⟩, hcomplete⟩ := h
  have hnext : drawsOf (.inr p :: cp.log) ++ more = draws := by simpa [drawsOf] using hdrawn
  unfold Processor.packet
  cases p with
  | incrementDe =>
    obtain ⟨rfl, hown⟩ := hown
    refine .inr ⟨_, rfl, ⟨trivial, hlawful⟩, hexecuted, hnext, ⟨false, hown, fun hleft => ?_⟩,
      hcomplete⟩
    obtain ⟨hce, hde, -, hlt⟩ := hlive hleft
    have hlt := hlt rfl
    have hmod : (deCount cp.log + 1) % 4294967296 = deCount cp.log + 1 := by
      have := cp.m_ce_count.isLt
      omega
    exact ⟨by simpa using hce, by simpa [BitVec.toNat_add, hde] using hmod,
      by simpa using Nat.succ_le_of_lt hlt, nofun⟩
  | waitCe =>
    dsimp only
    split_ifs with hwait
    · exact .inl rfl
    · -- the draw goes on because of the counters, or because the constant stream has ended
      have hcounts : left ≠ [] → Live true cp := by
        intro hleft
        obtain ⟨hce, hde, hle, -⟩ := hlive hleft
        refine ⟨hce, hde, hle, fun _ => ?_⟩
        by_contra hnot
        refine hwait ⟨?_, Bool.eq_false_iff.mpr fun hc => hleft (hcomplete hc)⟩
        rw [BitVec.le_def]
        omega
      refine .inr ⟨_, rfl, ⟨?_, hlawful⟩, hexecuted, hnext, ⟨true, hown, fun hleft =>
        (hcounts hleft).logged nofun nofun⟩, hcomplete⟩
      by_cases hleft : left = []
      · exact .inr (by rw [← hexecuted, hleft, append_nil])
      · exact .inl ((hcounts hleft).2.2.2 rfl)
  | other =>
    cases ready with
    | true =>
      exact .inr ⟨_, rfl, ⟨trivial, hlawful⟩, hexecuted, hnext, ⟨waited, hown, fun hleft =>
        (hlive hleft).logged nofun nofun⟩, hcomplete⟩
    | false => exact .inl rfl

/-! ## Streams and rounds -/

theorem turn_spec {P : Type} {side : P → Packet} (ready : ℕ → Bool) {complete : Bool}
    (I : List P → Processor → Prop)
    (hstep : ∀ p rest cp ready, I (p :: rest) cp → cp.packet ready (side p) = .suspended ∨
      ∃ cp', cp.packet ready (side p) = .executed cp' ∧ I rest cp')
    (stream : List P) (cp : Processor) (h : I stream cp)
    (hcomplete : complete = true → stream = []) :
    ∃ rest cp', turn side complete ready stream cp = some (rest, cp') ∧ I rest cp' ∧
      ((complete || rest.isEmpty) = true ↔ rest = []) ∧ rest.length ≤ stream.length ∧
      (rest.length = stream.length → rest = stream ∧ cp' = cp) ∧
      ∀ p more, rest = p :: more → cp'.packet (ready more.length) (side p) = .suspended := by
  unfold turn
  cases complete with
  | true =>
    obtain rfl := hcomplete rfl
    exact ⟨[], cp, rfl, h, by simp, Nat.le_refl _, fun _ => ⟨rfl, rfl⟩, nofun⟩
  | false =>
    simp only [Bool.false_eq_true, if_false, Bool.false_or, List.isEmpty_iff, true_and]
    clear hcomplete
    induction stream generalizing cp with
    | nil => exact ⟨[], cp, rfl, h, Nat.le_refl _, fun _ => ⟨rfl, rfl⟩, nofun⟩
    | cons p stream ih =>
      unfold processStream
      rcases hstep p stream cp (ready stream.length) h with heq | ⟨cp', heq, hinv⟩
      · rw [heq]
        refine ⟨p :: stream, cp, rfl, h, Nat.le_refl _, fun _ => ⟨rfl, rfl⟩, ?_⟩
        rintro q more ⟨⟩
        exact heq
      · rw [heq]
        obtain ⟨rest, cp'', hprocess, hinv, hle, -, hlast⟩ := ih cp' hinv
        exact ⟨rest, cp'', hprocess, hinv, Nat.le_succ_of_le hle,
          fun hlength => absurd (hlength ▸ hle) (Nat.not_succ_le_self _), hlast⟩

theorem constantPacket_flag {flag : Bool} {p : ConstantPacket}
    (h : cp.packet ready (.inl p) = .suspended) :
    { cp with m_ce_complete := flag }.packet ready (.inl p) = .suspended := by
  unfold Processor.packet at h ⊢
  cases p with
  | incrementCe => cases h
  | waitDeDiff diff | other =>
    dsimp only at h ⊢
    split_ifs at h ⊢
    rfl

namespace Submission

variable {s : Submission}

/-- What holds between two rounds. -/
structure Sound (constants : List ConstantPacket) (draws : List DrawPacket) (s : Submission) :
    Prop where
  inv : Inv constants s.constant_commands draws s.commands s.cp
  constant : s.constant_complete = true → s.constant_commands = []
  command : s.command_complete = true → s.commands = []

/-- Neither stream can take another step. -/
def Stuck (s : Submission) (ready : Ready) : Prop :=
  (∀ p rest, s.constant_commands = p :: rest →
    s.cp.packet (ready.1 rest.length) (.inl p) = .suspended) ∧
  ∀ p rest, s.commands = p :: rest → s.cp.packet (ready.2 rest.length) (.inr p) = .suspended

theorem round_spec (h : s.Sound constants draws) (hcount : constants.count .incrementCe < 2 ^ 32)
    (ready : Ready) :
    ∃ t progress, s.round ready = some (t, progress) ∧ t.Sound constants draws ∧
      t.started = s.started ∧
      ((t.command_complete && t.constant_complete) = true ↔
        t.constant_commands = [] ∧ t.commands = []) ∧
      (progress = true → t.constant_commands.length + t.commands.length
        < s.constant_commands.length + s.commands.length) ∧
      (progress = false → t.Stuck ready) := by
  obtain ⟨left, cp, hconstants, hinv, hleft, hle, hsame, hlast⟩ :=
    turn_spec ready.1 (fun left cp => Inv constants left draws s.commands cp)
      (fun p rest cp ready hinv => hinv.constantPacket hcount) _ _ h.inv h.constant
  obtain ⟨more, cp', hdraws, hinv', hmore, hle', hsame', hlast'⟩ :=
    turn_spec ready.2 (fun more cp => Inv constants left draws more cp)
      (fun p rest cp ready hinv => hinv.drawPacket) s.commands
      { cp with m_ce_complete := s.constant_complete || left.isEmpty }
      ⟨hinv.lawful, hinv.executed, hinv.drawn, hinv.own, hleft.mp⟩ h.command
  rw [round, hconstants]
  dsimp only [Option.bind_eq_bind, Option.bind_some]
  rw [hdraws]
  refine ⟨_, _, rfl, ⟨hinv', hleft.mp, hmore.mp⟩, rfl, ?_, fun hprogress => ?_,
    fun hprogress => ⟨fun p rest heq => ?_, hlast'⟩⟩
  · rw [Bool.and_eq_true, and_comm]
    exact and_congr hleft hmore
  · have hlength := of_decide_eq_true hprogress
    dsimp only at hlength ⊢
    omega
  · have hlength := of_decide_eq_false hprogress
    dsimp only at hlength
    obtain ⟨-, rfl⟩ := hsame' (by omega)
    exact constantPacket_flag (hlast p rest heq)

theorem rounds_spec {fuel : ℕ} (ready : ℕ → Ready) (h : s.Sound constants draws)
    (hcount : constants.count .incrementCe < 2 ^ 32)
    (hfuel : s.constant_commands.length + s.commands.length < fuel) :
    ∃ t complete last, s.rounds ready fuel = some (t, complete, last) ∧ t.Sound constants draws ∧
      t.started = s.started ∧
      (complete = true ↔ t.constant_commands = [] ∧ t.commands = []) ∧
      (complete = false → t.Stuck last) := by
  induction fuel generalizing s with
  | zero => cases hfuel
  | succ fuel ih =>
    obtain ⟨t, progress, hround, hsound, hstarted, hcomplete, hmore, hstuck⟩ :=
      round_spec h hcount (ready fuel)
    unfold rounds
    rw [hround, Option.bind_some]
    dsimp only
    split_ifs with hstop
    · refine ⟨t, _, _, rfl, hsound, hstarted, hcomplete, fun hc => hstuck ?_⟩
      rw [hc] at hstop
      simpa using hstop
    · have hprogress : progress = true := by
        cases progress with
        | true => rfl
        | false => simp at hstop
      have := hmore hprogress
      rw [← hstarted]
      exact ih hsound (by omega)

theorem process_spec (h : s.Sound constants draws) (hfirst : s.started = false → s.cp = {})
    (hcount : constants.count .incrementCe < 2 ^ 32) (ready : ℕ → Ready) :
    ∃ t complete last, s.process ready = some (t, complete, last) ∧ t.Sound constants draws ∧
      t.started = true ∧
      (complete = true ↔ t.constant_commands = [] ∧ t.commands = []) ∧
      (complete = false → t.Stuck last) := by
  have hstart : (if s.started then s else { s with
      started := true
      cp := { s.cp with m_de_count := 0, m_ce_count := 0, m_ce_complete := false } })
      = { s with started := true } := by
    obtain ⟨_, _, _, _, started, cp⟩ := s
    cases started with
    | true => rfl
    | false =>
      obtain rfl : cp = {} := hfirst rfl
      rfl
  unfold process
  rw [hstart]
  refine rounds_spec ready ⟨h.inv, fun hc => ?_, h.command⟩ hcount (Nat.lt_succ_self _)
  rcases Bool.or_eq_true_iff.mp hc with hc | hc
  · exact h.constant hc
  · exact isEmpty_iff.mp hc

end Submission

theorem Reached.sound {s : Submission} (h : Reached constants draws s)
    (hcount : constants.count .incrementCe < 2 ^ 32) (hown : OwnWaits false draws) :
    s.Sound constants draws ∧ (s.started = false → s.cp = {}) := by
  induction h with
  | submitted =>
    refine ⟨⟨⟨trivial, rfl, rfl, ⟨false, hown, fun _ =>
      ⟨rfl, rfl, Nat.le_refl _, nofun⟩⟩, nofun⟩, nofun, nofun⟩, fun _ => rfl⟩
  | slice ready complete last before after ih =>
    obtain ⟨t, complete, last, hprocess, hsound, hstarted, -⟩ :=
      Submission.process_spec ih.1 ih.2 hcount ready
    cases hprocess.symm.trans after
    exact ⟨hsound, fun hfalse => by rw [hstarted] at hfalse; cases hfalse⟩

/-- In every slice of a submission, packets are executed in the order of their streams and only
when they may be, nothing aborts, and a submission that is blocked has no stream that can take
another step. -/
theorem engines_synchronised {s : Submission} (h : Reached constants draws s)
    (hcount : constants.count .incrementCe < 2 ^ 32) (hown : OwnWaits false draws) :
    Lawful constants s.cp.log ∧
    constantsOf s.cp.log ++ s.constant_commands = constants ∧
    drawsOf s.cp.log ++ s.commands = draws ∧
    ∀ ready, ∃ t complete last, s.process ready = some (t, complete, last) ∧
      (complete = true ↔ t.constant_commands = [] ∧ t.commands = []) ∧
      (complete = false → t.Stuck last) := by
  obtain ⟨hsound, hfirst⟩ := h.sound hcount hown
  refine ⟨hsound.inv.lawful, hsound.inv.executed, hsound.inv.drawn, fun ready => ?_⟩
  obtain ⟨t, complete, last, hprocess, -, -, hcomplete, hstuck⟩ :=
    Submission.process_spec hsound hfirst hcount ready
  exact ⟨t, complete, last, hprocess, hcomplete, hstuck⟩

/-- A draw waits for the constants, and the constant engine for the draw. -/
theorem engines_synchronised_draw :
    Lawful [.incrementCe, .waitDeDiff 1]
      [.inl (.waitDeDiff 1), .inr .incrementDe, .inr .waitCe, .inl .incrementCe] :=
  (@engines_synchronised [.incrementCe, .waitDeDiff 1] [.waitCe, .incrementDe] _
    (.slice (fun _ => (fun _ => false, fun _ => false)) true _ .submitted rfl) (by decide)
    ⟨rfl, trivial⟩).1

/-- Of two waits that no `INCREMENT_DE_COUNTER` separates, the second passes with the first. -/
theorem second_wait_passes : OwnWaits false [.waitCe, .waitCe] ∧
    ∃ s, Reached [.incrementCe, .other] [.waitCe, .waitCe] s ∧
      s.cp.log = [.inr .waitCe, .inr .waitCe, .inl .incrementCe] ∧
      s.constant_commands = [.other] :=
  ⟨trivial, _, .slice (fun _ => (fun _ => false, fun _ => false)) false _ .submitted rfl, rfl, rfl⟩

/-! ## The streams in memory -/

section Execution

open Pm4 (Machine handled_advance handled_suspended)

variable {S P : Type} (exec : Pm4.Processor S) (Shows : S → Processor → Prop) (side : P → Packet)
  (ready : ℕ → Bool) (total : ℕ)

/-- The packets of a stream lie one behind the other, with `left` dwords from the first one on.
`Shows` says which states have the counters of a processor. -/
inductive Laid : (address left : ℕ) → List P → Prop
  | nil (address : ℕ) : Laid address 0 []
  | cons {address dw left : ℕ} {p : P} {rest : List P}
      (answers : ∀ s cp, Shows s cp →
        match Processor.packet cp (ready rest.length) (side p) with
        | .exit => exec.packet s address (dw + left + 1) total = .handled .exit
        | .suspended => exec.packet s address (dw + left + 1) total = .handled (.tested false dw)
        | .executed cp' => ∃ s', Shows s' cp' ∧
            (exec.packet s address (dw + left + 1) total = .handled (.ran s' dw) ∨
              s' = s ∧ exec.packet s address (dw + left + 1) total = .handled (.tested true dw)))
      (behind : Laid (address + 4 * (dw + 1)) left rest) : Laid address (dw + left + 1) (p :: rest)

variable {exec Shows side ready total} {address left : ℕ} {stream : List P} {m : Machine S}

/-- **`processStream` is what `Process` does** with a stream that enters no buffer. -/
theorem processStream_process (h : Laid exec Shows side ready total address left stream)
    (hshows : Shows m.memory cp) (hcontrol : m.control = .loop 0 [])
    (hsuspended : m.m_suspended = false) (hstack : m.m_buffer_stack = [⟨address, left, total, 0⟩]) :
    ∃ n m', (·.step exec)^[n] m = m' ∧ match processStream side ready stream cp with
      | none => m'.control = .exited .packet
      | some (rest, cp') => m'.control = .returned ∧ Shows m'.memory cp' ∧
          (∃ address left, Laid exec Shows side ready total address left rest ∧
            m'.m_buffer_stack = if rest = [] then [] else [⟨address, left, total, 0⟩]) ∧
          rest.length ≤ stream.length ∧ (m'.m_made_progress = true ↔
            m.m_made_progress = true ∨ rest.length < stream.length) := by
  induction h generalizing m cp with
  | nil address =>
    obtain ⟨memory, stack, suspended, progress, control, log, mark⟩ := m
    cases hcontrol
    cases hsuspended
    cases hstack
    exact ⟨3, _, rfl, rfl, hshows, ⟨0, 0, .nil 0, rfl⟩, le_rfl,
      (or_iff_left (Nat.lt_irrefl 0)).symm⟩
  | @cons address dw left p rest answers behind ih =>
    have hanswer := answers m.memory cp hshows
    have hfits : ¬ dw + left + 1 < dw + 1 := by omega
    have hstep := Pm4.step_round (P := exec) hcontrol hstack ⟨rfl, Nat.succ_pos _⟩
    unfold Machine.round at hstep
    unfold processStream
    cases houtcome : cp.packet (ready rest.length) (side p) with
    | exit =>
      rw [houtcome] at hanswer
      rw [hanswer] at hstep
      exact ⟨1, _, hstep, rfl⟩
    | suspended =>
      rw [houtcome] at hanswer
      rw [hanswer] at hstep
      have hstops := hstep.trans (handled_suspended [] hfits (Bool.or_true _)
        (congrArg length hstack))
      exact ⟨2, { m with m_suspended := _, log := _, control := .returned },
        congrArg (·.step exec) hstops, rfl, hshows, ⟨_, _, .cons answers behind, hstack⟩, le_rfl,
        (or_iff_left (Nat.lt_irrefl _)).symm⟩
    | executed cp' =>
      rw [houtcome] at hanswer
      obtain ⟨s', hshows', hanswer⟩ := hanswer
      have hnext : ∃ log, m.step exec = { m with
          memory := s', m_buffer_stack := [⟨address + 4 * (dw + 1), left, total, 0⟩], log,
          m_made_progress := true } := by
        have hleft : dw + left + 1 - (dw + 1) = left := by omega
        rcases hanswer with hran | ⟨rfl, htested⟩
        · rw [hran] at hstep
          rw [hstep.trans (handled_advance [] hfits hsuspended hstack rfl)]
          exact ⟨.ran address :: m.log,
            by simp [Machine.note, Pm4.BufferCursor.advance, hleft, hcontrol]⟩
        · rw [htested] at hstep
          rw [hstep.trans (handled_advance [] hfits ((Bool.or_false _).trans hsuspended) hstack
            rfl)]
          exact ⟨.tested address true :: m.log,
            by simp [Machine.note, Pm4.BufferCursor.advance, hleft, hcontrol]⟩
      obtain ⟨log, hnext⟩ := hnext
      obtain ⟨n, m', hrun, hresult⟩ := @ih _ { m with
          memory := s', m_buffer_stack := [⟨address + 4 * (dw + 1), left, total, 0⟩], log,
          m_made_progress := true } hshows' hcontrol hsuspended rfl
      refine ⟨n + 1, m', by rw [Function.iterate_succ_apply, hnext, hrun], ?_⟩
      dsimp only
      revert hresult
      cases processStream side ready rest cp' with
      | none => exact id
      | some result =>
        rintro ⟨hreturned, hshows'', hplace, hle, hmade⟩
        exact ⟨hreturned, hshows'', hplace, Nat.le_succ_of_le hle,
          iff_of_true (hmade.mpr (.inl rfl)) (.inr (Nat.lt_succ_of_le hle))⟩

end Execution

end MagnusPS5.Graphics.ConstantEngine
