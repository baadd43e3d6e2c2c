/-
The packets of a whole submission.

`Straight` goes on after each packet at the end of a packet, if the packets are counted, and so
does an execution, which follows it. `InBuffer` is the invariant of the places to go on at.
-/
import MagnusPS5.Graphics.Pm4ExecutionRun
import MagnusPS5.Graphics.Pm4Framing

namespace MagnusPS5.Graphics.Pm4

open Lib CommandProcessor Straight List Machine

variable {S : Type*}

/-! ## Command buffers -/

/-- The sizes of the packets of the command buffer at an address. -/
def sizesOf (commands : ℕ → BitVec 32) (buffer : ℕ) : ℕ → Option ℕ :=
  packetSize fun i => commands (buffer + 4 * i)

/-- A command buffer is packets one after the other. -/
def Packets (commands : ℕ → BitVec 32) (buffer size_dw : ℕ) : Prop :=
  Whole (sizesOf commands buffer) 0 size_dw

/-- A place with `remaining` dwords after it is at the end of a packet, or past the buffer. -/
def InBuffer (commands : ℕ → BitVec 32) (buffers : Set (ℕ × ℕ)) (packet : ℕ) (remaining : ℤ) :
    Prop :=
  ∃ b ∈ buffers, ∃ pos : ℕ, packet = b.1 + 4 * pos ∧ remaining = b.2 - pos ∧
    (pos ≤ b.2 → Whole (sizesOf commands b.1) 0 pos)

/-- What is asked of a packet that is read: its buffer is as it was, it is counted, and it enters
one of the command buffers. -/
structure Sound (cp : CommandProcessor S) (commands : ℕ → BitVec 32) (buffers : Set (ℕ × ℕ))
    (s : S) (packet remaining_dw total_dw : ℕ) : Prop where
  words : ∀ b ∈ buffers, ∀ pos, packet = b.1 + 4 * pos → pos + remaining_dw = b.2 →
    ∀ i < b.2, cp.word s (b.1 + 4 * i) = commands (b.1 + 4 * i)
  counted : cp.Predicated s packet ∨ cp.Counted s packet
  entered : ∀ buffer size_dw dw, cp.processor.packet s packet remaining_dw total_dw =
    .handled (.entered buffer size_dw dw) → size_dw ≠ 0 → (buffer, size_dw) ∈ buffers

variable {cp : CommandProcessor S} {commands : ℕ → BitVec 32} {buffers : Set (ℕ × ℕ)} {s : S}
  {buffer size_dw : ℕ} {r' : Straight S}

theorem entered_inBuffer (hb : (buffer, size_dw) ∈ buffers) :
    InBuffer commands buffers buffer size_dw :=
  ⟨_, hb, 0, by simp, by simp, fun _ => .nil _⟩

section Runs

variable (hbuffers : ∀ b ∈ buffers, Packets commands b.1 b.2)

include hbuffers

/-- **After a packet, the run is at the end of a packet again.** -/
theorem past_inBuffer {packet remaining_dw total_dw : ℕ} (hpos : 0 < remaining_dw)
    (hsound : Sound cp commands buffers s packet remaining_dw total_dw)
    (hin : InBuffer commands buffers packet remaining_dw) {d : ℕ}
    (hd : (cp.processor.packet s packet remaining_dw total_dw).dwords = some d) :
    InBuffer commands buffers (packet + 4 * d) (remaining_dw - d) := by
  obtain ⟨b, hb, pos, hpacket, hremaining, hwhole⟩ := hin
  refine ⟨b, hb, pos + d, by omega, by omega, fun hle => ?_⟩
  have hat := hwhole (by omega)
  -- a packet starts here
  obtain ⟨size, hsize, _⟩ :=
    (hat.between packetSize_pos (hbuffers b hb) (by omega)).tail (by omega)
  have hwords (i : ℕ) (hi : i < b.2) : packetSize (cp.dword s b.1) i = sizesOf commands b.1 i := by
    rw [sizesOf, packetSize, packetSize]
    exact congrArg headerSize (hsound.words b hb pos hpacket (by omega) i hi)
  have hread : packetSize (cp.dword s packet) 0 = some size := by
    rw [packetSize, hpacket, dword_add, Nat.add_zero]
    exact (hwords pos (by omega)).trans hsize
  -- and the next ones start where its handler ends
  have hnext := (packet_framed hread hd).mpr hsound.counted
  have hpackets : Whole (packetSize (cp.dword s packet)) 0 d :=
    .cons hread (by rwa [Nat.zero_add])
  rw [hpacket, whole_dword, Nat.add_zero] at hpackets
  exact hat.trans (hpackets.congr (fun q hq => hwords q (by omega)) packetSize_pos)

theorem act_inBuffer {f : Frame} {rest : List Frame} {log : List Event} (hpos : 0 < f.remaining)
    (hsound : Sound cp commands buffers s f.packet f.remaining.toNat f.total)
    (hin : InBuffer commands buffers f.packet f.remaining)
    (hrest : ∀ f ∈ rest, InBuffer commands buffers f.packet f.remaining) (h : act s f rest log
      (cp.processor.packet s f.packet f.remaining.toNat f.total) = some r') :
    ∀ f ∈ r'.frames, InBuffer commands buffers f.packet f.remaining := by
  have hnat : (f.remaining.toNat : ℤ) = f.remaining := Int.toNat_of_nonneg (le_of_lt hpos)
  have hpast {d : ℕ} (hd : (cp.processor.packet s f.packet f.remaining.toNat f.total).dwords =
      some d) : ∀ g ∈ f.past d :: rest, InBuffer commands buffers g.packet g.remaining := by
    refine forall_mem_cons.mpr ⟨?_, hrest⟩
    have hgoes := past_inBuffer hbuffers (by omega) hsound (by rwa [hnat]) hd
    rw [hnat] at hgoes
    exact hgoes
  have hentered := hsound.entered
  generalize cp.processor.packet s f.packet f.remaining.toNat f.total = outcome at h hpast hentered
  unfold act at h
  split at h
  · cases h
    exact hpast rfl
  · nomatch h
  · split_ifs at h
    cases h
    exact hpast rfl
  · next ok dw =>
    split_ifs at h
    · cases h
      exact hpast rfl
    · -- the packet is read again
      cases h
      exact forall_mem_cons.mpr ⟨hin, hrest⟩
  · next buffer size_dw dw =>
    split_ifs at h with hsize
    · cases h
      exact hpast rfl
    · cases h
      exact forall_mem_cons.mpr ⟨entered_inBuffer (hentered _ _ _ rfl hsize), hpast rfl⟩

theorem next_inBuffer {r : Straight S}
    (hsound : ∀ f ∈ r.frames.head?, 0 < f.remaining →
      Sound cp commands buffers r.memory f.packet f.remaining.toNat f.total)
    (hin : ∀ f ∈ r.frames, InBuffer commands buffers f.packet f.remaining)
    (h : r.next cp.processor = some r') :
    ∀ f ∈ r'.frames, InBuffer commands buffers f.packet f.remaining := by
  unfold Straight.next at h
  split at h
  · nomatch h
  · next f rest hframes =>
    rw [hframes] at hsound hin
    obtain ⟨hfirst, hrest⟩ := forall_mem_cons.mp hin
    split_ifs at h with hneg hzero
    · cases h
      exact hrest
    · have hpos : 0 < f.remaining := by omega
      exact act_inBuffer hbuffers hpos (hsound f rfl hpos) hfirst hrest h

/-! ## Executions -/

/-- What is asked of an execution before each step: a packet that it reads is sound. -/
def SoundAt (cp : CommandProcessor S) (commands : ℕ → BitVec 32) (buffers : Set (ℕ × ℕ))
    (m : Machine S) : Prop :=
  ∀ top, m.At top → 0 < top.remaining_dw →
    Sound cp commands buffers m.memory top.next_packet top.remaining_dw top.total_dw

/-- What holds of an execution in every state. -/
structure FramedInv (commands : ℕ → BitVec 32) (buffers : Set (ℕ × ℕ)) (m : Machine S) : Prop where
  inv : Inv m
  inBuffer : Live m → ∀ f ∈ m.straight.frames, InBuffer commands buffers f.packet f.remaining

variable {m : Machine S}

theorem step_framedInv (hsound : SoundAt cp commands buffers m)
    (h : FramedInv commands buffers m) :
    FramedInv commands buffers (m.step cp.processor) := by
  refine ⟨step_inv h.inv, fun hlive => ?_⟩
  have hin := h.inBuffer (step_live hlive)
  rcases (step_moved h.inv.shape).straight hlive with heq | ⟨⟨top, hat⟩, hnext⟩
  · rwa [heq]
  · refine next_inBuffer hbuffers ?_ hin hnext
    -- the run is where the execution is
    obtain ⟨rest, hframes⟩ := frames_at h.inv.shape hat
    rw [hframes, frame_zero]
    intro f hf hpos
    cases hf
    exact hsound top hat (Int.natCast_pos.mp hpos)

theorem apply_framedInv (op : Op S) (hsound : op = .step → SoundAt cp commands buffers m)
    (h : FramedInv commands buffers m) :
    FramedInv commands buffers (m.apply cp.processor buffer size_dw op) := by
  refine ⟨apply_inv op h.inv, ?_⟩
  cases op with
  | step => exact (step_framedInv hbuffers (hsound rfl) h).inBuffer
  | change memory => exact h.inBuffer
  | process =>
    intro hlive
    simp only [apply] at hlive ⊢
    split
    · next hready =>
      have hwas : Live m := fun reason hc => by simp [hready.1] at hc
      have hstraight : (m.Process buffer size_dw).straight = m.straight := by
        rw [straight, process_stack rfl hready.2, straight, hready.1]
        rfl
      rw [hstraight]
      exact h.inBuffer hwas
    · next hready =>
      rw [if_neg hready] at hlive
      exact h.inBuffer hlive

omit hbuffers in
theorem start_framedInv (memory : S) (hbuffer : (buffer, size_dw) ∈ buffers) :
    FramedInv commands buffers (.start memory buffer size_dw) := by
  refine ⟨start_inv memory buffer size_dw, fun _ => ?_⟩
  rw [start_straight, Straight.start]
  split_ifs
  · exact forall_mem_nil _
  · exact forall_mem_cons.mpr ⟨entered_inBuffer hbuffer, forall_mem_nil _⟩

theorem run_framedInv (ops : List (Op S)) (hm : FramedInv commands buffers m)
    (hsound : ∀ done rest, done ++ .step :: rest = ops → SoundAt cp commands buffers
      (Lib.after (fun op m => m.apply cp.processor buffer size_dw op) m done)) :
    FramedInv commands buffers
      (Lib.after (fun op m => m.apply cp.processor buffer size_dw op) m ops) := by
  induction ops generalizing m with
  | nil => exact hm
  | cons op ops ih =>
    refine ih (apply_framedInv hbuffers op ?_ hm) fun done rest heq => ?_
    · intro heq
      exact hsound [] ops (by rw [heq, nil_append])
    · exact hsound (op :: done) rest (by rw [cons_append, heq])

end Runs

/-- The cursor is at the end of a packet of its buffer, or at its start. -/
def AtBoundary (commands : ℕ → BitVec 32) (buffers : Set (ℕ × ℕ)) (top : BufferCursor) : Prop :=
  ∃ b ∈ buffers, ∃ pos, top.next_packet = b.1 + 4 * pos ∧ pos + top.remaining_dw = b.2 ∧
    Whole (sizesOf commands b.1) 0 pos

/-- **`ProcessPm4` goes on at the end of a packet just where a packet is counted or passed over,
and where all are, it reads packets only, and leaves each buffer at its end.** -/
theorem pm4_framing (cp : CommandProcessor S) :
    (∀ (s : S) (packet remaining_dw total_dw size d : ℕ),
      packetSize (cp.dword s packet) 0 = some size →
      (cp.processor.packet s packet remaining_dw total_dw).dwords = some d →
      (Whole (packetSize (cp.dword s packet)) size d ↔
        cp.Predicated s packet ∨ cp.Counted s packet)) ∧
    (∀ (commands : ℕ → BitVec 32) (buffers : Set (ℕ × ℕ)) (memory : S) (buffer size_dw : ℕ)
      (ops : List (Op S)), (∀ b ∈ buffers, Packets commands b.1 b.2) → (buffer, size_dw) ∈ buffers →
      (∀ done rest, done ++ .step :: rest = ops → SoundAt cp commands buffers
        (Lib.after (fun op m => m.apply cp.processor buffer size_dw op)
          (Machine.start memory buffer size_dw) done)) →
      ∀ top, (Lib.after (fun op m => m.apply cp.processor buffer size_dw op)
        (Machine.start memory buffer size_dw) ops).At top → AtBoundary commands buffers top) := by
  refine ⟨fun s packet remaining_dw total_dw size d hsize hd =>
    CommandProcessor.packet_framed hsize hd, ?_⟩
  intro commands buffers memory buffer size_dw ops hbuffers hbuffer hsound top hat
  have hinv := run_framedInv hbuffers ops (start_framedInv memory hbuffer) hsound
  generalize Lib.after (fun op m => Machine.apply cp.processor buffer size_dw op m)
    (.start memory buffer size_dw) ops = m at hat hinv
  obtain ⟨rest, hframes⟩ := frames_at hinv.inv.shape hat
  have hlive : Live m := by
    obtain ⟨_, _, _, hc, _⟩ := hat
    intro reason hexit
    simp [hc] at hexit
  have hin := hinv.inBuffer hlive (top.frame 0) (by rw [hframes]; exact .head _)
  rw [frame_zero] at hin
  obtain ⟨b, hb, pos, hpacket, hremaining, hwhole⟩ := hin
  dsimp only at hpacket hremaining
  exact ⟨b, hb, pos, hpacket, by omega, hwhole (by omega)⟩

/-- A processor that notes the register writes, with the words of a command buffer at address 0. -/
def noting (words : List (BitVec 32)) : CommandProcessor (List (ℕ × List (BitVec 32))) where
  word _ address := words.getD (address / 4) 0#32
  ShouldSkipPredicatedPackets _ := false
  m_de_count _ := 0
  m_ce_count _ := 0
  m_ce_complete _ := false
  perform s _ _ := some s
  write s _ cmd_offset values := some ((cmd_offset, values) :: s)
  g_hw_ctx_indirect_func _ := none
  g_hw_uc_indirect_func _ := none

/-- A fake register that is written alone, and a filler. -/
def oneFakeRegister : List (BitVec 32) := [0xC0016900#32, 0x18#32, 1#32, 0x80000000#32]

/-- Two fake registers that are written with one packet. -/
def twoFakeRegisters : List (BitVec 32) := [0xC0026900#32, 0x18#32, 1#32, 0xC0001000#32]

theorem pm4_framing_one_fake_register :
    (Whole (packetSize ((noting oneFakeRegister).dword [] 0)) 3 3 ↔
      (noting oneFakeRegister).Predicated [] 0 ∨ (noting oneFakeRegister).Counted [] 0) ∧
    AtBoundary ((noting oneFakeRegister).word []) {(0, 4)} ⟨12, 1, 4, 0⟩ := by
  constructor
  · exact (pm4_framing (noting oneFakeRegister)).1 [] 0 4 4 3 3 (by decide) (by decide)
  · refine (pm4_framing (noting oneFakeRegister)).2 ((noting oneFakeRegister).word []) {(0, 4)} []
      0 4 [.step] ?_ rfl ?_ ⟨12, 1, 4, 0⟩ ⟨0, [], [], by decide, by decide, by decide, rfl⟩
    · rintro b rfl
      exact .cons (n := 3) (by decide) (.single (n := 1) (by decide))
    · intro done rest heq top hat _
      -- the only packet that is read is the first one
      obtain ⟨rfl, rfl⟩ : done = [] ∧ rest = [] := by
        rcases done with _ | ⟨op, done⟩
        · exact ⟨rfl, (List.cons.inj heq).2⟩
        · simp at heq
      obtain ⟨_, _, _, _, _, hstack, _⟩ := hat
      obtain rfl : (⟨0, 4, 4, 0⟩ : BufferCursor) = top := (List.cons.inj hstack).1
      refine ⟨fun _ _ _ _ _ _ _ => rfl, .inr ⟨fun _ _ => .inl (by decide), ?_, ?_, ?_⟩, ?_⟩
      · exact fun h => nomatch h
      · exact fun h => nomatch h
      · exact fun h => nomatch h
      · intro buffer size_dw dw h
        have hran : (noting oneFakeRegister).processor.packet [] 0 4 4 = .handled (.ran [] 2) := rfl
        exact nomatch (hran.symm.trans h)

/-- Values of the packet are read as the next packet. -/
theorem pm4_framing_two_fake_registers :
    Packets ((noting twoFakeRegisters).word []) 0 4 ∧
    (packetSize ((noting twoFakeRegisters).dword [] 0) 0 = some 4 ∧
      ((noting twoFakeRegisters).processor.packet [] 0 4 4).dwords = some 3 ∧
      ¬ Whole (packetSize ((noting twoFakeRegisters).dword [] 0)) 4 3) ∧
    ∃ top, (Lib.after (fun op m => Machine.apply (noting twoFakeRegisters).processor 0 4 op m)
      (Machine.start [] 0 4) [.step]).At top ∧ 0 < top.remaining_dw ∧
        ¬ AtBoundary ((noting twoFakeRegisters).word []) {(0, 4)} top := by
  refine ⟨.single (n := 4) (by decide), ⟨by decide, by decide, fun h => nomatch h.le⟩,
    ⟨12, 1, 4, 0⟩, ⟨0, [], [], by decide, by decide, by decide, rfl⟩, by decide, ?_⟩
  rintro ⟨b, rfl, pos, hpos, _, hwhole⟩
  dsimp only at hpos
  have hthree : pos = 3 := by omega
  rw [hthree] at hwhole
  -- the first packet ends past the place
  obtain ⟨n, hsize, htail⟩ := hwhole.tail (by decide)
  have hfour : sizesOf ((noting twoFakeRegisters).word []) 0 0 = some 4 := by decide
  have hn : n = 4 := Option.some.inj (hsize.symm.trans hfour)
  have hle := htail.le
  omega

end MagnusPS5.Graphics.Pm4
