/-
What one append does, for a command buffer that holds a recording.

The host keeps the commands in four vectors; a state `Holds` a recording when the vectors
are its commands by kind. An append either leaves memory and every command alone, or adds
what `Recording.append` says (`append_spec`). The commands come out of the vectors in the
order of the recording (`Holds.ordered_eq`), because record offsets grow.
-/
import MagnusPS5.Ampr.AppendCalls

namespace MagnusPS5.Ampr

open Lib KernelError AppendCall List List.Perm Command Function Buffers

/-! ## The four vectors -/

namespace Command

def asReadFile : Command → Option ReadFileCommand
  | ReadFile command => some command
  | _ => none

def asKernelEvent : Command → Option KernelEventCommand
  | KernelEvent command => some command
  | _ => none

def asWriteAddress : Command → Option WriteAddressCommand
  | WriteAddress command => some command
  | _ => none

def asAmmMap : Command → Option AmmMapCommand
  | AmmMap command => some command
  | _ => none

end Command

/-- The vectors, the offset and the gather state are those of a recording. -/
structure CommandBufferState.Holds (state : CommandBufferState) (r : Recording) : Prop where
  offset : state.write_offset = r.offset
  reads : state.read_file_commands = r.commands.filterMap Command.asReadFile
  events : state.kernel_event_commands = r.commands.filterMap Command.asKernelEvent
  writes : state.write_address_commands = r.commands.filterMap Command.asWriteAddress
  maps : state.amm_map_commands = r.commands.filterMap Command.asAmmMap
  gather : (if state.gather_scatter_valid then
      some ⟨state.gather_scatter_file_id, state.gather_scatter_destination,
        state.gather_scatter_file_offset⟩ else none) = r.gather

variable {command_buffer size file_id destination bytes file_offset record_size : ℕ}
  {command : Option Command} {call : AppendCall}

variable {s : Buffers} {state : CommandBufferState} {r r' : Recording}

theorem CommandBufferState.Holds.extend {state' : CommandBufferState}
    {gather : Option Gather} (h : state.Holds r)
    (hoffset : state'.write_offset = state.write_offset + size)
    (hreads : state'.read_file_commands =
      state.read_file_commands ++ command.toList.filterMap asReadFile)
    (hevents : state'.kernel_event_commands =
      state.kernel_event_commands ++ command.toList.filterMap asKernelEvent)
    (hwrites : state'.write_address_commands =
      state.write_address_commands ++ command.toList.filterMap asWriteAddress)
    (hmaps : state'.amm_map_commands =
      state.amm_map_commands ++ command.toList.filterMap asAmmMap)
    (hgather : (if state'.gather_scatter_valid then
      some ⟨state'.gather_scatter_file_id, state'.gather_scatter_destination,
        state'.gather_scatter_file_offset⟩ else none) = gather) :
    state'.Holds (r.extend size command gather) where
  offset := by rw [hoffset, h.offset]; rfl
  reads := by rw [hreads, h.reads, ← filterMap_append]; rfl
  events := by rw [hevents, h.events, ← filterMap_append]; rfl
  writes := by rw [hwrites, h.writes, ← filterMap_append]; rfl
  maps := by rw [hmaps, h.maps, ← filterMap_append]; rfl
  gather := hgather

theorem kinds_perm (l : List Command) :
    ((l.filterMap asReadFile).map Command.ReadFile ++
      ((l.filterMap asKernelEvent).map Command.KernelEvent ++
        ((l.filterMap asWriteAddress).map Command.WriteAddress ++
          (l.filterMap asAmmMap).map Command.AmmMap))).Perm l := by
  induction l with
  | nil => exact List.Perm.refl _
  | cons command l ih =>
    -- the head goes in front of the vectors of the kinds before its own
    cases command with
    | ReadFile command => exact ih.cons _
    | KernelEvent command => exact perm_middle.trans (ih.cons _)
    | WriteAddress command =>
      apply List.Perm.trans _ (ih.cons _)
      apply List.Perm.trans _ perm_middle
      exact perm_middle.append_left _
    | AmmMap command =>
      apply List.Perm.trans _ (ih.cons _)
      apply List.Perm.trans _ perm_middle
      apply append_left
      apply List.Perm.trans _ perm_middle
      exact perm_middle.append_left _

/-- Record offsets grow, and stay below the write offset. -/
structure Recording.Ordered (r : Recording) : Prop where
  sorted : r.commands.Pairwise fun a b => a.record_offset < b.record_offset
  below : ∀ command ∈ r.commands, command.record_offset < r.offset

theorem Recording.Ordered.extend (h : r.Ordered) (hsize : 0 < size)
    (hcommand : ∀ c ∈ command, c.record_offset = r.offset)
    (gather : Option Gather) : (r.extend size command gather).Ordered := by
  constructor
  · apply pairwise_append.mpr
    refine ⟨h.sorted, ?_, ?_⟩
    · cases command with
      | none => exact .nil
      | some c => exact pairwise_singleton _ _
    · intro a ha b hb
      rw [hcommand b (Option.mem_toList.mp hb)]
      exact h.below a ha
  · intro c hc
    show c.record_offset < r.offset + size
    rcases mem_append.mp hc with hold | hnew
    · have := h.below c hold
      omega
    · rw [hcommand c (Option.mem_toList.mp hnew)]
      omega

theorem Recording.Ordered.append (h : r.Ordered)
    (hsize : 0 < call.size) : (r.append call).Ordered := by
  have hgather : ∀ f : Gather → Recording, (∀ g, (f g).Ordered) → (r.gather.elim r f).Ordered := by
    intro f hf
    cases r.gather with
    | none => exact h
    | some g => exact hf g
  cases call with
  | ReadFileGather | ReadFileScatter | ReadFileGatherScatter =>
    exact hgather _ fun g => h.extend hsize (by rintro c ⟨⟩; rfl) _
  | _ => exact h.extend hsize (by rintro c ⟨⟩ <;> rfl) _

theorem CommandBufferState.Holds.ordered_eq
    (h : state.Holds r) (hr : r.Ordered) : state.ordered = r.commands := by
  have hqueued : state.queued.Perm r.commands := by
    unfold queued
    rw [h.reads, h.events, h.writes, h.maps]
    exact kinds_perm r.commands
  have hall : (state.queued.filter fun command =>
      decide (command.record_offset < state.write_offset)) = state.queued := by
    apply filter_eq_self.mpr
    intro command hcommand
    rw [h.offset]
    exact decide_eq_true (hr.below command (hqueued.mem_iff.mp hcommand))
  have hperm : state.ordered.Perm r.commands := by
    unfold ordered
    rw [hall]
    exact (perm_insertionSort _ _).trans hqueued
  have hsorted : state.ordered.Pairwise fun a b => a.record_offset ≤ b.record_offset :=
    pairwise_insertionSort _ _
  have hinj : ∀ a b, a ∈ state.ordered → b ∈ r.commands → a.record_offset ≤ b.record_offset →
      b.record_offset ≤ a.record_offset → a = b := by
    -- equal offsets are those of one command
    intro a b ha hb hab hba
    have hnodup : (r.commands.map record_offset).Nodup :=
      pairwise_map.mpr (hr.sorted.imp ne_of_lt)
    exact inj_on_of_nodup_map hnodup (hperm.mem_iff.mp ha) hb (le_antisymm hab hba)
  exact eq_of_pairwise hinj hsorted (hr.sorted.imp le_of_lt) hperm

/-! ## One append -/

/-- The same command buffer, up to what was found out about its addresses. -/
def CommandBufferState.SameAs (state' state : CommandBufferState) : Prop :=
  ∃ header_validated buffer_validated, state' = { state with header_validated, buffer_validated }

/-- The record has been written: the state, and memory outside of the record and of the first
three words of the header. -/
structure Appended (command_buffer size : ℕ) (state : CommandBufferState) (r r' : Recording)
    (s s' : Buffers) : Prop where
  positive : 0 < size
  offset : r'.offset = r.offset + size
  bound : state.buffer ≠ 0
  fits : r.offset + size ≤ state.size
  visible : loadWord s'.memory (command_buffer + 0x04) 4 = r'.offset
  kept : ∀ i, ¬ (command_buffer ≤ i ∧ i < command_buffer + 0x0c) →
    ¬ (state.buffer + r.offset ≤ i ∧ i < state.buffer + r.offset + size) →
    s'.memory i = s.memory i
  aliases : s'.g_command_buffer_aliases = s.g_command_buffer_aliases
  stored : ∃ state', state'.Holds r' ∧ state'.buffer = state.buffer ∧ state'.size = state.size ∧
    s'.g_command_buffers = Function.update s.g_command_buffers command_buffer (some state')

/-- Nothing has been written but what was found out about the command buffer. -/
def Untouched (command_buffer : ℕ) (state : CommandBufferState) (s s' : Buffers) : Prop :=
  s' = s ∨ ∃ state', state'.SameAs state ∧ s' = s.store command_buffer state'

/-- What an append does that answers `ok` or not. -/
def Answered (command_buffer size : ℕ) (state : CommandBufferState) (r r' : Recording)
    (s s' : Buffers) (ok : Prop) : Prop :=
  (ok ∧ Appended command_buffer size state r r' s s') ∨ (¬ ok ∧ Untouched command_buffer state s s')

/-- What an append does, by its answer. -/
abbrev Answers (command_buffer size : ℕ) (state : CommandBufferState) (r r' : Recording)
    (s : Buffers) (b : Reply) : Prop :=
  Answered command_buffer size state r r' s b.2 (b.1 = .ok ())

theorem CommandBufferState.SameAs.refl (state : CommandBufferState) : state.SameAs state :=
  ⟨state.header_validated, state.buffer_validated, rfl⟩

theorem Buffers.store_store (s : Buffers) (command_buffer : ℕ) (state state' : CommandBufferState) :
    (s.store command_buffer state).store command_buffer state' = s.store command_buffer state' := by
  unfold store
  rw [update_idem]

theorem Buffers.store_eq_self (h : s.g_command_buffers command_buffer = some state) :
    s.store command_buffer state = s := by
  unfold store
  rw [← h, update_eq_self]

theorem getOrCreateCommandBufferState_of_view (h : s.view command_buffer = some state) :
    getOrCreateCommandBufferState command_buffer s =
      some (state, s.store command_buffer state) := by
  unfold Buffers.view at h
  unfold getOrCreateCommandBufferState
  cases hown : s.g_command_buffers command_buffer with
  | some own =>
    rw [hown] at h
    cases h
    rw [store_eq_self hown]
  | none =>
    rw [hown] at h
    dsimp only at h ⊢
    rw [h]
    rfl

theorem CommandBufferState.validateHeader_sameAs (command_buffer : ℕ)
    (state : CommandBufferState) : (state.validateHeader command_buffer).2.SameAs state := by
  unfold validateHeader
  split
  · exact .refl state
  · split
    · exact ⟨true, state.buffer_validated, rfl⟩
    · exact .refl state

theorem ensureCommandBufferRecordSpace_spec (command_buffer : ℕ) (state : CommandBufferState)
    (record_size : ℕ) :
    (ensureCommandBufferRecordSpace command_buffer state record_size).2.SameAs state ∧
      ((ensureCommandBufferRecordSpace command_buffer state record_size).1 = true →
        0 < record_size ∧ state.buffer ≠ 0 ∧ state.write_offset + record_size ≤ state.size) := by
  unfold ensureCommandBufferRecordSpace
  have hsame := state.validateHeader_sameAs command_buffer
  obtain ⟨header_validated, buffer_validated, hstate⟩ := hsame
  by_cases hzero : record_size = 0
  · rw [if_pos hzero]
    exact ⟨.refl state, nofun⟩
  · rw [if_neg hzero]
    by_cases hno : (state.validateHeader command_buffer).1 = false ∨ state.buffer = 0 ∨
        state.size < record_size ∨ state.size - record_size < state.write_offset
    · rw [if_pos hno]
      exact ⟨⟨_, _, hstate⟩, nofun⟩
    · rw [if_neg hno, hstate]
      refine ⟨?_, fun _ => ⟨by omega, by tauto, by omega⟩⟩
      unfold validateCommandBufferBacking
      split
      · exact ⟨_, _, rfl⟩
      · split
        · exact ⟨_, _, rfl⟩
        · split
          · exact ⟨_, true, rfl⟩
          · exact ⟨_, _, rfl⟩

/-- The header after a record: its offset is the new one, and only it and the number of
commands are written. -/
theorem commitCommandBufferRecord_spec
    (h : state.write_offset + size < 0x100000000) (memory : ℕ → UInt8) :
    ∃ memory', commitCommandBufferRecord command_buffer state size memory =
        (true, { state with write_offset := state.write_offset + size }, memory') ∧
      loadWord memory' (command_buffer + 0x04) 4 =
        state.write_offset + size ∧
      ∀ i, ¬ (command_buffer + 0x04 ≤ i ∧
        i < command_buffer + 0x0c) → memory' i = memory i := by
  unfold commitCommandBufferRecord COMMAND_BUFFER_OFFSET_OFFSET COMMAND_BUFFER_NUM_OFFSET UINT32_MAX
  dsimp only
  rw [if_neg (by omega)]
  refine ⟨_, rfl, ?_, ?_⟩
  · rw [loadWord_storeWord_other (by omega), loadWord_storeWord]
    exact Nat.mod_eq_of_lt (by omega)
  · intro i hi
    unfold storeWord
    rw [copyBlock_of_not_mem (by omega), copyBlock_of_not_mem (by omega)]

/-- The state after a record, before `finish`. -/
def CommandBufferState.pushed (push : ℕ → CommandBufferState → CommandBufferState)
    (state : CommandBufferState) (size : ℕ) : CommandBufferState :=
  { push state.write_offset state with write_offset := state.write_offset + size }

/-- **One record.** `finish` completes the recording and writes at most the type word. -/
theorem appendRecord_spec {record : ℕ → UInt8} {push : ℕ → CommandBufferState → CommandBufferState}
    {finish : CommandBufferState → (ℕ → UInt8) → Bool × CommandBufferState × (ℕ → UInt8)}
    (hview : s.view command_buffer = some state) (hholds : state.Holds r)
    (hsize : state.size < 0x100000000) (hoffset : r'.offset = r.offset + size)
    (hpush : ∀ o st, (push o st).write_offset = st.write_offset)
    (hfinish : ∀ (state' : CommandBufferState) memory, state'.SameAs state → ∃ state'' memory',
      finish (state'.pushed push size) memory = (true, state'', memory') ∧ state''.Holds r' ∧
        state''.buffer = state.buffer ∧ state''.size = state.size ∧
        ∀ i, ¬ (command_buffer ≤ i ∧ i < command_buffer + 0x04) →
          memory' i = memory i) :
    Answered command_buffer size state r r' s
      (appendRecord command_buffer size record push finish s).2
      ((appendRecord command_buffer size record push finish s).1 = true) := by
  obtain ⟨hsame, hroom⟩ := ensureCommandBufferRecordSpace_spec command_buffer state size
  unfold appendRecord
  rw [getOrCreateCommandBufferState_of_view hview]
  dsimp only
  cases hok : (ensureCommandBufferRecordSpace command_buffer state size).1 with
  | false =>
    rw [if_pos rfl]
    exact .inr ⟨nofun, .inr ⟨_, hsame, s.store_store _ _ _⟩⟩
  | true =>
    rw [if_neg Bool.true_eq_false_eq_False]
    obtain ⟨hpositive, hbound, hfits⟩ := hroom hok
    generalize (ensureCommandBufferRecordSpace command_buffer state size).2 = state' at hsame ⊢
    have hwrite : state'.write_offset = r.offset := by
      obtain ⟨_, _, rfl⟩ := hsame
      exact hholds.offset
    have hbuffer : state'.buffer = state.buffer := by
      obtain ⟨_, _, rfl⟩ := hsame
      rfl
    have hmax : (push state'.write_offset state').write_offset + size < 0x100000000 := by
      rw [hpush, hwrite, ← hholds.offset]
      omega
    obtain ⟨committed, hcommit, hvisible, hkept⟩ := commitCommandBufferRecord_spec hmax
      (copyBlock record 0 (state'.buffer + state'.write_offset) size s.memory)
    obtain ⟨state'', memory', hfinished, hholds', hbuffer', hsize', htype⟩ :=
      hfinish state' committed hsame
    have hpushed : ({ push state'.write_offset state' with
        write_offset := (push state'.write_offset state').write_offset + size } :
        CommandBufferState) = state'.pushed push size := by
      unfold CommandBufferState.pushed
      rw [hpush]
    have hmemory : (s.store command_buffer state).memory = s.memory := rfl
    rw [hmemory, hcommit, if_neg Bool.true_eq_false_eq_False, hpushed, hfinished]
    refine .inl ⟨rfl, ?_⟩
    exact
      { positive := hpositive
        offset := hoffset
        bound := hbound
        fits := by rw [← hholds.offset]; exact hfits
        visible := by
          rw [hoffset, ← hwrite, ← hpush state'.write_offset state', ← hvisible]
          exact loadWord_congr fun i h1 h2 => htype i (by omega)
        kept := by
          intro i hheader hrecord
          show memory' i = s.memory i
          rw [htype i (by omega), hkept i (by omega), hbuffer, hwrite]
          exact copyBlock_of_not_mem hrecord
        aliases := rfl
        stored := ⟨state'', hholds', hbuffer', hsize', by
          exact update_idem ..⟩ }

/-! ## The calls -/

theorem updateCommandBufferTypeFlagsUnchecked_kept {set_bits clear_bits i : ℕ}
    (h : ¬ (command_buffer ≤ i ∧ i < command_buffer + 0x04)) (memory : ℕ → UInt8) :
    updateCommandBufferTypeFlagsUnchecked command_buffer set_bits clear_bits memory i =
      memory i := by
  exact copyBlock_of_not_mem h

section Calls

variable {s' : Buffers}

theorem Appended.typeFlags (h : Appended command_buffer size state r r' s s')
    (set_bits clear_bits : ℕ) :
    Appended command_buffer size state r r' s
      (updateCommandBufferTypeFlags command_buffer set_bits clear_bits s') := by
  unfold updateCommandBufferTypeFlags
  split
  · exact
      { h with
        visible := by
          rw [← h.visible]
          exact loadWord_congr fun i h1 h2 =>
            updateCommandBufferTypeFlagsUnchecked_kept (by omega) _
        kept := by
          intro i hheader hrecord
          rw [← h.kept i hheader hrecord]
          exact updateCommandBufferTypeFlagsUnchecked_kept (by omega) _ }
  · exact h

theorem answered_returned {b : Bool × Buffers}
    (h : Answered command_buffer size state r r' s b.2 (b.1 = true)) (error : KernelError) :
    Answers command_buffer size state r r' s (returned error b) := by
  unfold returned
  rcases h with ⟨hok, happended⟩ | ⟨hno, huntouched⟩
  · rw [if_pos hok]
    exact .inl ⟨rfl, happended⟩
  · rw [if_neg hno]
    exact .inr ⟨nofun, huntouched⟩

theorem answered_of_store {ok : Prop} (h : Answered command_buffer size state r r'
    (s.store command_buffer state) s' ok) : Answered command_buffer size state r r' s s' ok := by
  rcases h with ⟨hok, happended⟩ | ⟨hno, huntouched⟩
  · obtain ⟨state', hholds', hbuffer, hsize, hstored⟩ := happended.stored
    refine .inl ⟨hok, { happended with stored := ⟨state', hholds', hbuffer, hsize, ?_⟩ }⟩
    rw [hstored]
    exact update_idem ..
  · refine .inr ⟨hno, .inr ?_⟩
    rcases huntouched with rfl | ⟨state', hsame, rfl⟩
    · exact ⟨state, .refl state, rfl⟩
    · exact ⟨state', hsame, s.store_store _ _ _⟩

theorem answered_refused (error : KernelError) :
    Answered command_buffer size state r r' s s
      ((.error error : Except KernelError Unit) = .ok ()) :=
  .inr ⟨nofun, .inl rfl⟩

theorem answered_unless {c : Prop} [Decidable c] {error : KernelError} {rest : Reply}
    (h : ¬ c → Answers command_buffer size state r r' s rest) :
    Answers command_buffer size state r r' s (if c then (.error error, s) else rest) := by
  split
  · exact answered_refused _
  next hc => exact h hc

variable (hview : s.view command_buffer = some state) (hholds : state.Holds r)
  (hsize : state.size < 0x100000000)

include hview hholds hsize

theorem appendNoOpCommand_spec (hc : command_buffer ≠ 0) (bytes : ℕ) :
    Answers command_buffer (alignUp4 bytes) state r (r.extend (alignUp4 bytes) none r.gather) s
      (appendNoOpCommand command_buffer bytes s) := by
  unfold appendNoOpCommand
  rw [if_neg hc]
  apply answered_returned
  refine appendRecord_spec hview hholds hsize rfl (fun _ _ => rfl) ?_
  rintro state' memory ⟨_, _, rfl⟩
  refine ⟨_, _, rfl, ?_, rfl, rfl, fun _ _ => rfl⟩
  exact hholds.extend rfl (append_nil _).symm (append_nil _).symm
    (append_nil _).symm (append_nil _).symm hholds.gather

theorem commandBufferWriteKernelEventQueue_spec (hc : command_buffer ≠ 0) (eq id data : ℕ) :
    Answers command_buffer KERNEL_EVENT_RECORD_SIZE state r
      (r.append (.WriteKernelEventQueue eq id data)) s
      (commandBufferWriteKernelEventQueue command_buffer eq id data s) := by
  unfold commandBufferWriteKernelEventQueue
  rw [if_neg hc]
  apply answered_returned
  refine appendRecord_spec hview hholds hsize rfl (fun _ _ => rfl) ?_
  rintro state' memory ⟨_, _, rfl⟩
  refine ⟨_, _, rfl, ?_, rfl, rfl, fun _ _ => rfl⟩
  exact hholds.extend rfl (append_nil _).symm (by rw [← hholds.offset]; rfl)
    (append_nil _).symm (append_nil _).symm hholds.gather

theorem appendWriteAddressCommand_spec (address value : ℕ) :
    Answers command_buffer 0x20 state r
      (r.extend 0x20 (some (.WriteAddress { record_offset := r.offset, address, value })) r.gather) s
      (appendWriteAddressCommand command_buffer address value s) := by
  refine answered_unless fun _ => ?_
  apply answered_returned
  refine appendRecord_spec hview hholds hsize rfl (fun _ _ => rfl) ?_
  rintro state' memory ⟨_, _, rfl⟩
  refine ⟨_, _, rfl, ?_, rfl, rfl, fun _ _ => rfl⟩
  exact hholds.extend rfl (append_nil _).symm (append_nil _).symm
    (by rw [← hholds.offset]; rfl) (append_nil _).symm hholds.gather

theorem appendAmmMap_spec (valid : Bool) (command : AmmMapCommand) (record_size : ℕ) :
    Answers command_buffer record_size state r (r.amm record_size command) s
      (appendAmmMap command_buffer valid command record_size s) := by
  refine answered_unless fun _ => ?_
  apply answered_returned
  refine appendRecord_spec hview hholds hsize rfl (fun _ _ => rfl) ?_
  rintro state' memory ⟨_, _, rfl⟩
  refine ⟨_, _, rfl, ?_, rfl, rfl, fun _ _ => rfl⟩
  exact hholds.extend rfl (append_nil _).symm (append_nil _).symm
    (append_nil _).symm (by rw [← hholds.offset]; rfl) hholds.gather

/-- A read of a file. Its arguments are checked before, so that the place where the next
read goes on is an address and an offset. -/
theorem appendReadFileRecord_spec (opcode : UInt8)
    (hdestination : destination + bytes ≤ UINT64_MAX) (hoffset : file_offset + bytes ≤ UINT64_MAX) :
    Answered command_buffer record_size state r
      (r.readFile record_size file_id destination bytes file_offset) s
      (appendReadFileRecord command_buffer opcode file_id destination bytes file_offset record_size
        s).2
      ((appendReadFileRecord command_buffer opcode file_id destination bytes file_offset record_size
        s).1 = true) := by
  refine appendRecord_spec hview hholds hsize rfl (fun _ _ => rfl) ?_
  rintro state' memory ⟨_, _, rfl⟩
  unfold continueGatherScatter addU64
  rw [if_neg (by omega), if_neg (by omega)]
  refine ⟨_, _, rfl, ?_, rfl, rfl, fun _ h => updateCommandBufferTypeFlagsUnchecked_kept h _⟩
  exact hholds.extend rfl (by rw [← hholds.offset]; rfl) (append_nil _).symm
    (append_nil _).symm (append_nil _).symm (if_pos rfl)

/-- A call that answers with the error of its own when no record could be written, and else
goes on. -/
theorem appendMapBegin_spec (halign : alignUp4 record_size = record_size) (valid : Bool) :
    Answers command_buffer record_size state r (r.extend record_size none r.gather) s
      (appendMapBegin command_buffer record_size valid s) := by
  refine answered_unless fun hinvalid => ?_
  have hnoop := appendNoOpCommand_spec hview hholds hsize (by tauto) record_size
  rw [halign] at hnoop
  rcases hnoop with ⟨hok, happended⟩ | ⟨hno, huntouched⟩
  · rw [if_neg (not_not.mpr hok)]
    exact .inl ⟨rfl, happended.typeFlags _ _⟩
  · rw [if_pos hno]
    exact .inr ⟨nofun, huntouched⟩

theorem aprCommandBufferMapEnd_spec :
    Answers command_buffer 4 state r (r.append .MapEnd) s
      (aprCommandBufferMapEnd command_buffer s) := by
  refine answered_unless fun hc => ?_
  refine answered_unless fun _ => answered_unless fun _ => ?_
  rcases appendNoOpCommand_spec hview hholds hsize hc APR_MAP_END_RECORD_SIZE with
    ⟨hok, happended⟩ | ⟨hno, huntouched⟩
  · rw [if_neg (not_not.mpr hok)]
    exact .inl ⟨rfl, happended.typeFlags _ _⟩
  · rw [if_pos hno]
    exact .inr ⟨nofun, huntouched⟩

theorem aprCommandBufferResetGatherScatterState_spec :
    Answers command_buffer 4 state r (r.append .ResetGatherScatterState) s
      (aprCommandBufferResetGatherScatterState command_buffer s) := by
  refine answered_unless fun hc => ?_
  rcases appendNoOpCommand_spec hview hholds hsize hc RESET_GATHER_SCATTER_SIZE with
    ⟨hok, happended⟩ | ⟨hno, huntouched⟩
  · rw [if_neg (not_not.mpr hok)]
    refine .inl ⟨rfl, .typeFlags ?_ _ _⟩
    obtain ⟨state', hholds', hbuffer, hsize', hstored⟩ := happended.stored
    have hfound : (appendNoOpCommand command_buffer RESET_GATHER_SCATTER_SIZE
        s).2.g_command_buffers command_buffer = some state' := by
      rw [hstored, update_self]
    rw [hfound]
    exact
      { positive := happended.positive
        offset := happended.offset
        bound := happended.bound
        fits := happended.fits
        visible := happended.visible
        kept := happended.kept
        aliases := happended.aliases
        stored := by
          refine ⟨state'.resetGatherScatter, ?_, hbuffer, hsize', ?_⟩
          · exact ⟨hholds'.offset, hholds'.reads, hholds'.events, hholds'.writes,
              hholds'.maps, rfl⟩
          · show update _ _ _ = _
            rw [hstored, update_idem] }
  · rw [if_pos hno]
    exact .inr ⟨nofun, huntouched⟩

end Calls

/-! ## Reads of files -/

theorem tryGetCommandBufferState_of_view (h : s.view command_buffer = some state)
    (halias : s.g_command_buffer_aliases command_buffer = none) :
    tryGetCommandBufferState command_buffer s = some (state, s.store command_buffer state) := by
  have hresolve : resolveCommandBufferState command_buffer s =
      s.g_command_buffers command_buffer := by
    unfold resolveCommandBufferState
    rw [halias]
    exact ite_self _
  unfold Buffers.view at h
  unfold tryGetCommandBufferState
  rw [hresolve]
  cases hown : s.g_command_buffers command_buffer with
  | some own =>
    rw [hown] at h
    cases h
    rw [store_eq_self hown]
  | none =>
    rw [hown] at h
    dsimp only at h ⊢
    rw [h]
    rfl

theorem Buffers.view_store (s : Buffers) (command_buffer : ℕ) (state : CommandBufferState) :
    (s.store command_buffer state).view command_buffer = some state := by
  unfold view store
  dsimp only
  rw [update_self]

theorem appendGathered_spec
    (hholds : state.Holds r) (hsize : state.size < 0x100000000) {opcode : UInt8}
    {error : KernelError} (hrange : destination + bytes ≤ UINT64_MAX ∧ bytes ≤ 0x100000000)
    (hoffset : file_offset < 0x10000000000)
    (happend : r' = r.readFile record_size file_id destination bytes file_offset) :
    Answers command_buffer record_size state r r' s
      (returned error (appendReadFileRecord command_buffer opcode file_id destination bytes
        file_offset record_size (s.store command_buffer state))) := by
  rw [happend]
  apply answered_of_store
  apply answered_returned
  exact appendReadFileRecord_spec (s.view_store _ _) hholds hsize _ hrange.1
    (by unfold UINT64_MAX; omega)

theorem alignUp4_markerCommandSize (msg : Option (List UInt8)) (with_color : Bool) :
    alignUp4 (markerCommandSize msg with_color) = markerCommandSize msg with_color := by
  unfold markerCommandSize alignUp4
  omega

theorem isValidAprReadRange_le (h : isValidAprReadRange destination size ≠ false) :
    destination + size ≤ UINT64_MAX ∧ size ≤ 0x100000000 := by
  unfold isValidAprReadRange isValidAprReadSize APR_MAX_READ_LENGTH APR_MAX_APP_ADDRESS at h
  unfold UINT64_MAX
  simp at h
  omega

theorem isValidAprFileOffset_lt (h : isValidAprFileOffset file_offset ≠ false) :
    file_offset < 0x10000000000 := by
  unfold isValidAprFileOffset APR_MAX_FILE_OFFSET at h
  simp at h
  omega

theorem CommandBufferState.Holds.gather_eq
    (h : state.Holds r) (hvalid : state.gather_scatter_valid ≠ false) :
    r.gather = some ⟨state.gather_scatter_file_id, state.gather_scatter_destination,
      state.gather_scatter_file_offset⟩ := by
  rw [← h.gather, if_pos (Bool.eq_true_of_not_eq_false hvalid)]

section Reads

variable (hview : s.view command_buffer = some state) (hholds : state.Holds r)
  (hsize : state.size < 0x100000000)

include hview hholds hsize

theorem aprCommandBufferReadFile_spec (file_id destination size file_offset : ℕ) :
    Answers command_buffer (aprReadFileRecordSize file_offset) state r
      (r.append (.ReadFile file_id destination size file_offset)) s
      (aprCommandBufferReadFile command_buffer file_id destination size file_offset s) := by
  refine answered_unless fun hvalid => ?_
  simp only [not_or] at hvalid
  have hrange := isValidAprReadRange_le hvalid.2.1
  have hoffset := isValidAprFileOffset_lt hvalid.2.2
  apply answered_returned
  exact appendReadFileRecord_spec hview hholds hsize _ hrange.1 (by unfold UINT64_MAX; omega)

variable (halias : s.g_command_buffer_aliases command_buffer = none)

include halias

theorem aprCommandBufferReadFileGather_spec (size file_offset : ℕ) :
    Answers command_buffer (aprReadGatherRecordSize file_offset) state r
      (r.append (.ReadFileGather size file_offset)) s
      (aprCommandBufferReadFileGather command_buffer size file_offset s) := by
  refine answered_unless fun hvalid => ?_
  simp only [not_or] at hvalid
  rw [tryGetCommandBufferState_of_view hview halias]
  dsimp only
  split
  · exact .inr ⟨nofun, .inr ⟨state, .refl state, rfl⟩⟩
  next hgather =>
    simp only [not_or] at hgather
    refine appendGathered_spec hholds hsize (isValidAprReadRange_le hgather.2)
      (isValidAprFileOffset_lt hvalid.2.2) ?_
    show r.gather.elim _ _ = _
    rw [hholds.gather_eq hgather.1]
    rfl

theorem aprCommandBufferReadFileScatter_spec (destination size : ℕ) :
    Answers command_buffer READ_SCATTER_RECORD_SIZE state r
      (r.append (.ReadFileScatter destination size)) s
      (aprCommandBufferReadFileScatter command_buffer destination size s) := by
  refine answered_unless fun hvalid => ?_
  simp only [not_or] at hvalid
  rw [tryGetCommandBufferState_of_view hview halias]
  dsimp only
  split
  · exact .inr ⟨nofun, .inr ⟨state, .refl state, rfl⟩⟩
  next hgather =>
    simp only [not_or] at hgather
    refine appendGathered_spec hholds hsize (isValidAprReadRange_le hvalid.2)
      (isValidAprFileOffset_lt hgather.2) ?_
    show r.gather.elim _ _ = _
    rw [hholds.gather_eq hgather.1]
    rfl

theorem aprCommandBufferReadFileGatherScatter_spec (destination size file_offset : ℕ) :
    Answers command_buffer (aprReadGatherScatterRecordSize file_offset) state r
      (r.append (.ReadFileGatherScatter destination size file_offset)) s
      (aprCommandBufferReadFileGatherScatter command_buffer destination size file_offset s) := by
  refine answered_unless fun hvalid => ?_
  simp only [not_or] at hvalid
  rw [tryGetCommandBufferState_of_view hview halias]
  dsimp only
  split
  · exact .inr ⟨nofun, .inr ⟨state, .refl state, rfl⟩⟩
  next hgather =>
    refine appendGathered_spec hholds hsize (isValidAprReadRange_le hvalid.2.1)
      (isValidAprFileOffset_lt hvalid.2.2) ?_
    show r.gather.elim _ _ = _
    rw [hholds.gather_eq hgather]
    rfl

/-- **One append**, whatever its kind. -/
theorem append_spec (hc : command_buffer ≠ 0) (call : AppendCall) :
    Answers command_buffer call.size state r (r.append call) s (call.run command_buffer s) := by
  have hnoop := appendNoOpCommand_spec hview hholds hsize hc
  have hmarker msg with_color := hnoop (markerCommandSize msg with_color)
  simp only [alignUp4_markerCommandSize] at hmarker
  cases call with
  | ReadFile => exact aprCommandBufferReadFile_spec hview hholds hsize _ _ _ _
  | ReadFileGather => exact aprCommandBufferReadFileGather_spec hview hholds hsize halias _ _
  | ReadFileScatter => exact aprCommandBufferReadFileScatter_spec hview hholds hsize halias _ _
  | ReadFileGatherScatter =>
    exact aprCommandBufferReadFileGatherScatter_spec hview hholds hsize halias _ _ _
  | ResetGatherScatterState => exact aprCommandBufferResetGatherScatterState_spec hview hholds hsize
  | MapBegin =>
    exact appendMapBegin_spec hview hholds hsize
      (show alignUp4 APR_MAP_BEGIN_RECORD_SIZE = APR_MAP_BEGIN_RECORD_SIZE from rfl) _
  | MapDirectBegin =>
    exact appendMapBegin_spec hview hholds hsize
      (show alignUp4 APR_MAP_DIRECT_BEGIN_SIZE = APR_MAP_DIRECT_BEGIN_SIZE from rfl) _
  | MapEnd => exact aprCommandBufferMapEnd_spec hview hholds hsize
  | WriteKernelEventQueue =>
    exact commandBufferWriteKernelEventQueue_spec hview hholds hsize hc _ _ _
  | Nop | NopWithData => exact answered_unless fun _ => hnoop _
  | WriteAddress
  | WriteAddressFromCounter => exact appendWriteAddressCommand_spec hview hholds hsize _ _
  | AmmMap | AmmMapWithGpuMaskId | AmmMapDirect | AmmMapDirectWithGpuMaskId | AmmUnmap =>
    exact appendAmmMap_spec hview hholds hsize _ _ _
  | ConstructMarker | SetMarker | PushMarker | SetMarkerWithColor | PushMarkerWithColor =>
    exact hmarker _ _
  | ConstructNop | PopMarker | WaitOnAddress => exact hnoop _

end Reads

theorem of_guard {c : Prop} [Decidable c] {e : KernelError} {rest : Reply}
    (h : (if c then (.error e, s) else rest).1 = .ok ()) : ¬ c := by
  intro hc
  rw [if_pos hc] at h
  cases h

theorem measure_of_ok
    (h : (call.run command_buffer s).1 = .ok ()) : call.measure = .ok call.size := by
  cases call with
  | ReadFile | ReadFileGather | ReadFileScatter | ReadFileGatherScatter | MapBegin =>
    have hvalid := of_guard h
    simp only [not_or, Bool.not_eq_false] at hvalid
    simp [AppendCall.measure, AppendCall.size, measureCommandSizeReadFile,
      measureCommandSizeReadFileGather, measureCommandSizeReadFileScatter,
      measureCommandSizeReadFileGatherScatter, measureAprCommandSizeMapBegin, hvalid]
  | MapDirectBegin va dmem_offset size =>
    have hvalid := of_guard h
    rw [not_or, Bool.not_eq_false] at hvalid
    show measureAprCommandSizeMapDirectBegin va dmem_offset size = _
    unfold measureAprCommandSizeMapDirectBegin
    rw [if_pos hvalid.2]
    rfl
  | Nop num_u32 =>
    have hvalid := of_guard h
    show Except.ok (if num_u32 = 0 then 4 else alignUp4 (num_u32 * 4)) = _
    rw [if_neg (by tauto)]
    rfl
  | ConstructNop bytes =>
    show Except.ok (alignUp4 (((bytes + 3) / 4 + 1) * 4)) = Except.ok (alignUp4 (4 + bytes))
    unfold alignUp4
    congr 1
    omega
  | ConstructMarker msg with_color => cases with_color <;> rfl
  | _ => rfl

end MagnusPS5.Ampr
