/-
Command buffers over whole runs: any number of them, in any order of calls.

A `Book` is the abstract side: which command buffers there are, the record buffer of each,
the calls that it has accepted since it was last set, reset or cleared, and which one was
bound last to a record buffer. `Reachable` is a run in which the headers and record
buffers in use are apart. Along it the host's tables and the headers agree with the book
(`Agrees`), so that a submission executes what the book says, in its order.
-/
import MagnusPS5.Ampr.CommandBufferSpec

namespace MagnusPS5.Ampr

open Lib KernelError Function Recording Buffers CommandBufferState List
open AppendCall (run)

/-! ## The book -/

/-- A record buffer. -/
structure Area where
  buffer : ℕ
  size : ℕ
deriving DecidableEq

/-- `bound` is `none` for an address that is no command buffer, and `some none` for a command
buffer without a record buffer. -/
structure Book where
  bound : ℕ → Option (Option Area)
  recorded : ℕ → List AppendCall
  owner : ℕ → Option ℕ

variable {c x buffer : ℕ} {bound : Option (Option Area)}

namespace Book

def empty : Book := { bound := fun _ => none, recorded := fun _ => [], owner := fun _ => none }

/-- There is a command buffer at the address. -/
def Live (k : Book) (command_buffer : ℕ) : Prop := (k.bound command_buffer).isSome

/-- The command buffer loses what it has recorded, and its record buffer. -/
def forget (k : Book) (command_buffer : ℕ) (bound : Option (Option Area)) : Book :=
  { bound := Function.update k.bound command_buffer bound
    recorded := Function.update k.recorded command_buffer []
    owner := dropAliases command_buffer k.owner }

/-- The command buffer starts to record in a record buffer, as its last owner. -/
def bind (k : Book) (command_buffer : ℕ) (area : Area) : Book :=
  { bound := Function.update k.bound command_buffer (some (some area))
    recorded := Function.update k.recorded command_buffer []
    owner := Function.update (dropAliases command_buffer k.owner) area.buffer
      (some command_buffer) }

/-- One more call is accepted. -/
def record (k : Book) (command_buffer : ℕ) (call : AppendCall) : Book :=
  { k with
    recorded := Function.update k.recorded command_buffer (k.recorded command_buffer ++ [call]) }

/-- What is recorded for an address: that of a command buffer, or that of the last owner of a
record buffer. -/
def recordedAt (k : Book) (address : ℕ) : List AppendCall :=
  match k.bound address with
  | some _ => k.recorded address
  | none => (k.owner address).elim [] k.recorded

/-- Headers do not overlap, nor does a record buffer overlap a header. -/
structure Apart (k : Book) : Prop where
  headers : ∀ c c', k.Live c → k.Live c' → c ≠ c' →
    c + COMMAND_BUFFER_SIZE ≤ c' ∨ c' + COMMAND_BUFFER_SIZE ≤ c
  areas : ∀ c c' area, k.Live c → k.bound c' = some (some area) →
    c + COMMAND_BUFFER_SIZE ≤ area.buffer ∨ area.buffer + area.size ≤ c

section Forget

variable (k : Book)

theorem forget_bound_self : (k.forget c bound).bound c = bound := update_self ..

theorem forget_bound_of_ne (h : x ≠ c) : (k.forget c bound).bound x = k.bound x :=
  update_of_ne h ..

theorem forget_live_of_ne (h : x ≠ c) : (k.forget c bound).Live x ↔ k.Live x := by
  unfold Live
  rw [k.forget_bound_of_ne h]

end Forget

end Book

/-! ## Runs -/

inductive Call
  | Constructor (command_buffer : ℕ)
  | Destructor (command_buffer : ℕ)
  | SetBuffer (command_buffer buffer size : ℕ)
  | Append (command_buffer : ℕ) (call : AppendCall)
  | Reset (command_buffer : ℕ)
  | ClearBuffer (command_buffer : ℕ)
  | Submit (address : ℕ) (outcome : Command → ℤ)

namespace Call

/-- The call on the model. -/
def run : Call → Buffers → Buffers
  | Constructor c, s => (commandBufferConstructor c s).2
  | Destructor c, s => (commandBufferDestructor c s).2
  | SetBuffer c buffer size, s => (commandBufferSetBuffer c buffer size s).2
  | Append c call, s => (call.run c s).2
  | Reset c, s => (commandBufferReset c s).2
  | ClearBuffer c, s => (commandBufferClearBuffer c s).2
  | Submit address outcome, s => (submitCommandBuffer outcome address s).2

/-- What is noted of the call, by its answer. -/
def note : Call → Buffers → Book → Book
  | Constructor c, s, k =>
    if c ≠ 0 ∧ (commandBufferConstructor c s).1 = .ok () then k.forget c (some none) else k
  | Destructor c, _, k => if c = 0 then k else k.forget c none
  | SetBuffer c buffer size, s, k =>
    if (commandBufferSetBuffer c buffer size s).1 = .ok () then k.bind c ⟨buffer, size⟩ else k
  | Append c call, s, k => if (call.run c s).1 = .ok () then k.record c call else k
  | Reset c, s, k =>
    if (commandBufferReset c s).1 = .ok () then
      match k.bound c with
      | some (some area) => k.bind c area
      | _ => k
    else k
  | ClearBuffer c, s, k =>
    if (commandBufferClearBuffer c s).1 ≠ 0 then k.forget c (some none) else k
  | Submit .., _, k => k

/-- The call is on a command buffer, or on `nullptr`; a record buffer is a 64-bit address. -/
def Meant (k : Book) : Call → Prop
  | Constructor _ | Submit .. => True
  | SetBuffer c buffer _ => (c = 0 ∨ k.Live c) ∧ buffer ≤ UINT64_MAX
  | Destructor c | Append c _ | Reset c | ClearBuffer c => c = 0 ∨ k.Live c

end Call

/-- A memory without command buffers. -/
def Buffers.start (memory : ℕ → UInt8) : Buffers :=
  { memory, g_command_buffers := fun _ => none, g_command_buffer_aliases := fun _ => none }

/-- The calls one after the other. -/
def Buffers.runCalls (s : Buffers) (calls : List Call) : Buffers :=
  calls.foldl (fun s call => call.run s) s

/-- The states that a run comes to, and its book, from a memory without command buffers. -/
inductive Reachable (memory : ℕ → UInt8) : Buffers → Book → Prop
  | start : Reachable memory (.start memory) Book.empty
  | step {s : Buffers} {k : Book} (h : Reachable memory s k) (call : Call)
      (hmeant : call.Meant k) (hapart : (call.note s k).Apart) :
      Reachable memory (call.run s) (call.note s k)

/-- The sum of what the measure functions report. -/
def measured (calls : List AppendCall) : Except KernelError ℕ :=
  calls.foldlM (fun sum call => do
    let size ← call.measure
    return sum + size) 0

/-- Every command is executed once, in the order of the list, up to the first that fails,
which is reported with its record offset. -/
def Submission.Executes (submission : Submission) (outcome : Command → ℤ)
    (commands : List Command) : Prop :=
  (submission.executed = commands ∧ (∀ command ∈ commands, outcome command = 0) ∧
      submission.execution_result = 0 ∧ submission.error_offset = 0) ∨
    ∃ done failed rest, commands = done ++ failed :: rest ∧
      (∀ command ∈ done, outcome command = 0) ∧ outcome failed ≠ 0 ∧
      submission.executed = done ++ [failed] ∧
      submission.execution_result = outcome failed ∧
      submission.error_offset = failed.record_offset

/-! ## Agreement -/

/-- A command buffer without a record buffer. -/
structure Unbound (s : Buffers) (command_buffer : ℕ) (calls : List AppendCall) : Prop where
  header : validateCommandBufferHeader command_buffer = true
  data : loadWord s.memory (command_buffer + 0x10) 8 = 0
  nothing : calls = []
  state : ∀ state, s.g_command_buffers command_buffer = some state → state.buffer = 0 ∧
    state.size < 0x100000000 ∧ state.Holds { offset := state.write_offset }

/-- A command buffer that records in `area`. -/
structure Bound (s : Buffers) (command_buffer : ℕ) (calls : List AppendCall)
    (area : Area) : Prop where
  header : validateCommandBufferHeader command_buffer = true
  data : loadWord s.memory (command_buffer + 0x10) 8 = area.buffer
  size : loadWord s.memory (command_buffer + 0x0c) 4 = area.size
  visible : loadWord s.memory (command_buffer + 0x04) 4 = (Recording.of calls).offset
  nonzero : area.buffer ≠ 0
  nonempty : area.size ≠ 0
  small : area.size < 0x100000000
  fits : (Recording.of calls).offset ≤ area.size
  ordered : (Recording.of calls).Ordered
  measured : measured calls = .ok (Recording.of calls).offset
  state : ∃ state, s.g_command_buffers command_buffer = some state ∧
    state.Holds (Recording.of calls) ∧ state.buffer = area.buffer ∧ state.size = area.size

/-- The tables and the headers agree with the book. -/
structure Agrees (s : Buffers) (k : Book) : Prop where
  apart : k.Apart
  aliases : s.g_command_buffer_aliases = k.owner
  owned : ∀ buffer c, k.owner buffer = some c → ∃ size, k.bound c = some (some ⟨buffer, size⟩)
  unbound : ∀ c, k.bound c = some none → Unbound s c (k.recorded c)
  bound : ∀ c area, k.bound c = some (some area) → Bound s c (k.recorded c) area
  dead : ∀ x, k.bound x = none → ∀ state, s.g_command_buffers x = some state →
    hasQueuedCommands state = false

/-! ## What stays -/

variable {s s' : Buffers} {k k' : Book} {size : ℕ} {state : CommandBufferState}
  {calls : List AppendCall} {area : Area}

section Frame

theorem header_word (hmemory : ∀ i, c ≤ i → i < c + 0x18 → s'.memory i = s.memory i)
    {offset : ℕ} (h : offset + size ≤ 0x18) :
    loadWord s'.memory (c + offset) size = loadWord s.memory (c + offset) size :=
  loadWord_congr fun i h1 h2 => hmemory i (by omega) (by omega)

theorem Unbound.frame (h : Unbound s c calls)
    (hmemory : ∀ i, c ≤ i → i < c + 0x18 → s'.memory i = s.memory i)
    (htable : s'.g_command_buffers c = s.g_command_buffers c) : Unbound s' c calls where
  header := h.header
  data := by rw [header_word hmemory (by omega), h.data]
  nothing := h.nothing
  state := by rw [htable]; exact h.state

theorem Bound.frame (h : Bound s c calls area)
    (hmemory : ∀ i, c ≤ i → i < c + 0x18 → s'.memory i = s.memory i)
    (htable : s'.g_command_buffers c = s.g_command_buffers c) : Bound s' c calls area :=
  { h with
    data := by rw [header_word hmemory (by omega), h.data]
    size := by rw [header_word hmemory (by omega), h.size]
    visible := by rw [header_word hmemory (by omega), h.visible]
    state := by rw [htable]; exact h.state }

end Frame

section Step

theorem Agrees.step_at (h : Agrees s k) (hapart : k'.Apart)
    (haliases : s'.g_command_buffer_aliases = k'.owner)
    (howned : ∀ buffer x, k'.owner buffer = some x →
      ∃ size, k'.bound x = some (some ⟨buffer, size⟩))
    (hbound : ∀ x, x ≠ c → k'.bound x = k.bound x)
    (hrecorded : ∀ x, x ≠ c → k'.recorded x = k.recorded x)
    (htable : ∀ x, x ≠ c → s'.g_command_buffers x = s.g_command_buffers x)
    (hmemory : ∀ x, x ≠ c → k.Live x → ∀ i, x ≤ i → i < x + 0x18 → s'.memory i = s.memory i)
    (hown : match k'.bound c with
      | some (some area) => Bound s' c (k'.recorded c) area
      | some none => Unbound s' c (k'.recorded c)
      | none => ∀ state, s'.g_command_buffers c = some state → hasQueuedCommands state = false) :
    Agrees s' k' where
  apart := hapart
  aliases := haliases
  owned := howned
  unbound := by
    intro x hx
    by_cases hxc : x = c
    · subst hxc
      rw [hx] at hown
      exact hown
    · rw [hbound x hxc] at hx
      rw [hrecorded x hxc]
      have hlive : k.Live x := by rw [Book.Live, hx]; rfl
      exact (h.unbound x hx).frame (hmemory x hxc hlive) (htable x hxc)
  bound := by
    intro x area hx
    by_cases hxc : x = c
    · subst hxc
      rw [hx] at hown
      exact hown
    · rw [hbound x hxc] at hx
      rw [hrecorded x hxc]
      have hlive : k.Live x := by rw [Book.Live, hx]; rfl
      exact (h.bound x area hx).frame (hmemory x hxc hlive) (htable x hxc)
  dead := by
    intro x hx
    by_cases hxc : x = c
    · subst hxc
      rw [hx] at hown
      exact hown
    · rw [hbound x hxc] at hx
      rw [htable x hxc]
      exact h.dead x hx

theorem Book.Apart.ne_buffer (hapart : k.Apart) (hlive : k.Live c)
    (hx : k.bound x = some (some area)) (hsize : area.size ≠ 0) : area.buffer ≠ c := by
  have := hapart.areas c x area hlive hx
  unfold COMMAND_BUFFER_SIZE at this
  omega

section

variable (h : Agrees s k) (hlive : k.Live c)

include h hlive

theorem Agrees.owner_live : k.owner c = none := by
  cases howner : k.owner c with
  | none => rfl
  | some x =>
    obtain ⟨size, hx⟩ := h.owned c x howner
    exact absurd rfl (h.apart.ne_buffer hlive hx (h.bound x _ hx).nonempty)

theorem Agrees.header : validateCommandBufferHeader c = true := by
  cases hbound : k.bound c with
  | none => rw [Book.Live, hbound] at hlive; nomatch hlive
  | some area =>
    cases area with
    | none => exact (h.unbound c hbound).header
    | some area => exact (h.bound c area hbound).header

theorem Agrees.ne_zero : c ≠ 0 := by
  rintro rfl
  nomatch (h.header hlive)

end

theorem loadCommandBufferStateFromGuest_holds
    (h : loadCommandBufferStateFromGuest c s.memory = some state) :
    state.buffer = loadWord s.memory (c + 0x10) 8 ∧ state.size < 0x100000000 ∧
      state.Holds { offset := state.write_offset } ∧ hasQueuedCommands state = false := by
  unfold loadCommandBufferStateFromGuest at h
  split at h
  · cases h
    refine ⟨rfl, ?_, ⟨rfl, rfl, rfl, rfl, rfl, rfl⟩, rfl⟩
    exact loadWord_lt s.memory _ 4
  · exact absurd h (Option.some_ne_none _).symm

theorem Unbound.view (h : Unbound s c calls) :
    ∃ state, s.view c = some state ∧ state.buffer = 0 ∧ state.size < 0x100000000 ∧
      state.Holds { offset := state.write_offset } := by
  unfold Buffers.view
  cases hown : s.g_command_buffers c with
  | some state => exact ⟨state, rfl, h.state state hown⟩
  | none =>
    cases hload : loadCommandBufferStateFromGuest c s.memory with
    | none =>
      unfold loadCommandBufferStateFromGuest at hload
      rw [if_pos h.header] at hload
      exact absurd hload (Option.some_ne_none _)
    | some state =>
      obtain ⟨hbuffer, hsize, hholds, -⟩ := loadCommandBufferStateFromGuest_holds hload
      exact ⟨state, rfl, hbuffer.trans h.data, hsize, hholds⟩

theorem Bound.view (h : Bound s c calls area) :
    ∃ state, s.view c = some state ∧ state.Holds (of calls) ∧
      state.buffer = area.buffer ∧ state.size = area.size := by
  obtain ⟨state, hown, hrest⟩ := h.state
  exact ⟨state, by unfold Buffers.view; rw [hown], hrest⟩

theorem CommandBufferState.SameAs.holds {state' : CommandBufferState} {r : Recording}
    (hsame : state'.SameAs state) (h : state.Holds r) : state'.Holds r := by
  obtain ⟨_, _, rfl⟩ := hsame
  exact ⟨h.offset, h.reads, h.events, h.writes, h.maps, h.gather⟩

theorem Agrees.touch (h : Agrees s k)
    (hview : s.view c = some state) (htouch : Untouched c state s s') : Agrees s' k := by
  rcases htouch with rfl | ⟨state', hsame, rfl⟩
  · exact h
  · have hstored : (s.store c state').g_command_buffers c = some state' := update_self ..
    refine h.step_at h.apart h.aliases h.owned (fun _ _ => rfl) (fun _ _ => rfl)
      (fun x hx => update_of_ne hx ..) (fun _ _ _ _ _ _ => rfl) ?_
    cases hbound : k.bound c with
    | none =>
      intro found hfound
      rw [hstored] at hfound
      cases hfound
      have hqueued : hasQueuedCommands state = false := by
        unfold Buffers.view at hview
        cases hown : s.g_command_buffers c with
        | some own =>
          rw [hown] at hview
          obtain rfl := Option.some.inj hview
          exact h.dead c hbound own hown
        | none =>
          rw [hown] at hview
          exact (loadCommandBufferStateFromGuest_holds hview).2.2.2
      obtain ⟨_, _, rfl⟩ := hsame
      exact hqueued
    | some area =>
      cases area with
      | none =>
        have hold := h.unbound c hbound
        obtain ⟨state0, hview0, hbuffer, hsize, hholds⟩ := hold.view
        cases hview0.symm.trans hview
        refine ⟨hold.header, hold.data, hold.nothing, fun found hfound => ?_⟩
        rw [hstored] at hfound
        cases hfound
        have hholds' := hsame.holds hholds
        obtain ⟨_, _, rfl⟩ := hsame
        exact ⟨hbuffer, hsize, hholds'⟩
      | some area =>
        have hold := h.bound c area hbound
        obtain ⟨state0, hview0, hholds, hbuffer, hsize⟩ := hold.view
        cases hview0.symm.trans hview
        have hholds' := hsame.holds hholds
        obtain ⟨_, _, rfl⟩ := hsame
        exact { hold with state := ⟨_, hstored, hholds', hbuffer, hsize⟩ }

theorem Agrees.view_live (h : Agrees s k) (hlive : k.Live c) :
    ∃ state r, s.view c = some state ∧ state.Holds r ∧ state.size < 0x100000000 ∧
      ((k.bound c = some none ∧ state.buffer = 0 ∧ r = { offset := state.write_offset }) ∨
        ∃ area, k.bound c = some (some area) ∧ r = of (k.recorded c) ∧
          state.buffer = area.buffer ∧ state.size = area.size) := by
  cases hbound : k.bound c with
  | none => rw [Book.Live, hbound] at hlive; nomatch hlive
  | some area =>
    cases area with
    | none =>
      obtain ⟨state, hview, hbuffer, hsize, hholds⟩ := (h.unbound c hbound).view
      exact ⟨state, _, hview, hholds, hsize, .inl ⟨rfl, hbuffer, rfl⟩⟩
    | some area =>
      have hold := h.bound c area hbound
      obtain ⟨state, hview, hholds, hbuffer, hsize⟩ := hold.view
      exact ⟨state, _, hview, hholds, by rw [hsize]; exact hold.small,
        .inr ⟨area, rfl, rfl, hbuffer, hsize⟩⟩

end Step

/-! ## One call -/

theorem measured_concat {call : AppendCall} {sum : ℕ}
    (hcalls : measured calls = .ok sum) (hcall : call.measure = .ok size) :
    measured (calls ++ [call]) = .ok (sum + size) := by
  unfold measured at hcalls ⊢
  rw [foldlM_append, hcalls]
  show (do let n ← call.measure; return sum + n) >>= _ = _
  rw [hcall]
  rfl

theorem append_null (call : AppendCall) (s : Buffers) :
    (∃ error, (call.run 0 s).1 = .error error) ∧ (call.run 0 s).2 = s := by
  have hrefused : ∀ answer : Reply,
      (∃ error, answer = (.error error, s)) →
        (∃ error, answer.1 = .error error) ∧ answer.2 = s := by
    rintro _ ⟨error, rfl⟩
    exact ⟨⟨error, rfl⟩, rfl⟩
  apply hrefused
  cases call with
  | Nop num_u32 =>
    simp only [run, commandBufferNop, appendNoOpCommand, if_true]
    split <;> exact ⟨_, rfl⟩
  | NopWithData num_u32 =>
    simp only [run, commandBufferNopWithData, appendNoOpCommand, if_true]
    split <;> exact ⟨_, rfl⟩
  | _ => exact ⟨_, rfl⟩

section Step

theorem Agrees.append (h : Agrees s k) (hc : c = 0 ∨ k.Live c) (call : AppendCall) :
    Agrees ((Call.Append c call).run s) ((Call.Append c call).note s k) := by
  rcases hc with rfl | hlive
  · obtain ⟨⟨error, herror⟩, hsame⟩ := append_null call s
    show Agrees (call.run 0 s).2 (if (call.run 0 s).1 = .ok () then k.record 0 call else k)
    rw [hsame, herror, if_neg nofun]
    exact h
  · obtain ⟨state, r, hview, hholds, hsmall, hcase⟩ := h.view_live hlive
    have halias : s.g_command_buffer_aliases c = none := by
      rw [h.aliases]
      exact h.owner_live hlive
    show Agrees (call.run c s).2 (if (call.run c s).1 = .ok () then k.record c call else k)
    rcases append_spec hview hholds hsmall halias (h.ne_zero hlive) call with
      ⟨hok, happended⟩ | ⟨hno, huntouched⟩
    · rw [if_pos hok]
      rcases hcase with ⟨-, hnobuffer, -⟩ | ⟨area, hbound, rfl, hbuffer, hsize⟩
      · exact absurd hnobuffer happended.bound
      · have hold := h.bound c area hbound
        have hfits := happended.fits
        rw [hsize] at hfits
        -- what is written lies in the own header or in the own record buffer
        have hkept : ∀ x, k.Live x → ∀ i, x ≤ i → i < x + 0x18 →
            ¬ (c ≤ i ∧ i < c + 0x0c) → (call.run c s).2.memory i = s.memory i := by
          intro x hx i h1 h2 hout
          apply happended.kept i hout
          have harea := h.apart.areas x c area hx hbound
          unfold COMMAND_BUFFER_SIZE at harea
          rw [hbuffer]
          omega
        have hrecorded : (k.record c call).recorded c = k.recorded c ++ [call] :=
          update_self ..
        refine h.step_at ⟨h.apart.headers, h.apart.areas⟩ ?_ h.owned (fun _ _ => rfl)
          (fun x hx => update_of_ne hx ..) ?_ ?_ ?_
        · rw [happended.aliases]
          exact h.aliases
        · intro x hx
          obtain ⟨state', -, -, -, hstored⟩ := happended.stored
          rw [hstored, update_of_ne hx]
        · intro x hx hlivex i h1 h2
          have hheaders := h.apart.headers x c hlivex hlive hx
          unfold COMMAND_BUFFER_SIZE at hheaders
          exact hkept x hlivex i h1 h2 (by omega)
        · have hsame : (k.record c call).bound c = some (some area) := hbound
          rw [hsame, hrecorded]
          exact
            { hold with
              data := by
                rw [← hold.data]
                exact loadWord_congr fun i h1 h2 => hkept c hlive i (by omega) (by omega) (by omega)
              size := by
                rw [← hold.size]
                exact loadWord_congr fun i h1 h2 => hkept c hlive i (by omega) (by omega) (by omega)
              visible := by rw [of_concat]; exact happended.visible
              fits := by rw [of_concat, happended.offset]; exact hfits
              ordered := by rw [of_concat]; exact hold.ordered.append happended.positive
              measured := by
                rw [of_concat, happended.offset]
                exact measured_concat hold.measured (measure_of_ok hok)
              state := by
                obtain ⟨state', hholds', hbuffer', hsize', hstored⟩ := happended.stored
                refine ⟨state', ?_, ?_, hbuffer'.trans hbuffer, hsize'.trans hsize⟩
                · rw [hstored, update_self]
                · rw [of_concat]
                  exact hholds' }
    · rw [if_neg hno]
      exact h.touch hview huntouched

/-! ### Calls on the whole buffer -/

theorem Agrees.forget (h : Agrees s k) (hapart : (k.forget c bound).Apart)
    (howner : k.owner c = none ∨ k.owner c = some c)
    (hmemory : ∀ x, x ≠ c → k.Live x → ∀ i, x ≤ i → i < x + 0x18 → s'.memory i = s.memory i)
    (htables : s'.g_command_buffers = s.g_command_buffers ∧
      s'.g_command_buffer_aliases = s.g_command_buffer_aliases)
    (hbound : bound = none ∨ (bound = some none ∧ validateCommandBufferHeader c = true ∧
      loadWord s'.memory (c + 0x10) 8 = 0)) :
    Agrees (eraseCommandBufferState c s') (k.forget c bound) := by
  have hgone : (eraseCommandBufferState c s').g_command_buffers c = none :=
    update_self ..
  refine h.step_at hapart ?_ ?_ (fun x hx => k.forget_bound_of_ne hx)
    (fun x hx => update_of_ne hx ..) ?_ hmemory ?_
  · -- `c` is no record buffer of another, so that its own aliases are all
    show update (dropAliases c s'.g_command_buffer_aliases) c none = dropAliases c k.owner
    rw [htables.2, h.aliases]
    apply update_eq_self_iff.mpr
    unfold dropAliases
    rcases howner with hnone | hself
    · rw [hnone, if_neg nofun]
    · rw [hself, if_pos rfl]
  · intro buffer x hx
    have hx' : dropAliases c k.owner buffer = some x := hx
    unfold dropAliases at hx'
    split at hx'
    · exact absurd hx' nofun
    next hne =>
      have hxc : x ≠ c := by
        rintro rfl
        exact hne hx'
      obtain ⟨size, hsize⟩ := h.owned buffer x hx'
      exact ⟨size, by rw [k.forget_bound_of_ne hxc, hsize]⟩
  · intro x hx
    show update s'.g_command_buffers c none x = _
    rw [update_of_ne hx, htables.1]
  · have hrecorded : (k.forget c bound).recorded c = [] := update_self ..
    rw [k.forget_bound_self, hrecorded]
    rcases hbound with rfl | ⟨rfl, hheader, hdata⟩
    · intro state hstate
      rw [hgone] at hstate
      exact absurd hstate nofun
    · refine ⟨hheader, hdata, rfl, fun state hstate => ?_⟩
      rw [hgone] at hstate
      exact absurd hstate nofun

theorem Agrees.constructor (h : Agrees s k) (c : ℕ)
    (hapart : ((Call.Constructor c).note s k).Apart) :
    Agrees ((Call.Constructor c).run s) ((Call.Constructor c).note s k) := by
  show Agrees (commandBufferConstructor c s).2 (if _ then _ else _)
  change (if _ then _ else _ : Book).Apart at hapart
  unfold commandBufferConstructor at hapart ⊢
  by_cases hc : c = 0
  · rw [if_pos hc, if_neg (fun hn => hn.1 hc)]
    exact h
  · rw [if_neg hc] at hapart ⊢
    by_cases hvalid : isValidGuestRange c COMMAND_BUFFER_SIZE = false
    · rw [if_pos hvalid, if_neg (fun hn => absurd hn.2 nofun)]
      exact h
    · rw [if_neg hvalid] at hapart ⊢
      rw [if_pos ⟨hc, rfl⟩] at hapart ⊢
      have hlive : (k.forget c (some none)).Live c := by
        unfold Book.Live
        rw [k.forget_bound_self]
        rfl
      refine h.forget hapart ?_ ?_ ⟨rfl, rfl⟩ (.inr ⟨rfl, Bool.eq_true_of_not_eq_false hvalid, ?_⟩)
      · -- another owner of `c` would have a record buffer over the new header
        cases howner : k.owner c with
        | none => exact .inl rfl
        | some x =>
          right
          congr 1
          by_contra hne
          obtain ⟨size, hx⟩ := h.owned c x howner
          have hx' : (k.forget c (some none)).bound x = some (some ⟨c, size⟩) := by
            rw [k.forget_bound_of_ne hne, hx]
          exact hapart.ne_buffer hlive hx' (h.bound x _ hx).nonempty rfl
      · intro x hx hlivex i h1 h2
        have hheaders := hapart.headers x c ((k.forget_live_of_ne hx).mpr hlivex) hlive hx
        unfold COMMAND_BUFFER_SIZE at hheaders
        show copyBlock (fun _ => 0) 0 c 0x18 s.memory i = _
        exact copyBlock_of_not_mem (by omega)
      · apply loadWord_eq_zero
        intro i hi
        show copyBlock (fun _ => 0) 0 c 0x18 s.memory (c + 0x10 + i) = _
        exact copyBlock_of_mem (by omega) (by omega)

theorem Agrees.destructor (h : Agrees s k) (hc : c = 0 ∨ k.Live c)
    (hapart : ((Call.Destructor c).note s k).Apart) :
    Agrees ((Call.Destructor c).run s) ((Call.Destructor c).note s k) := by
  show Agrees (commandBufferDestructor c s).2 (if c = 0 then k else k.forget c none)
  change (if c = 0 then k else k.forget c none).Apart at hapart
  unfold commandBufferDestructor
  by_cases hzero : c = 0
  · rw [if_pos hzero, if_pos hzero]
    exact h
  · rw [if_neg hzero] at hapart ⊢
    rw [if_neg hzero]
    have hlive : k.Live c := hc.resolve_left hzero
    exact h.forget hapart (.inl (h.owner_live hlive)) (fun _ _ _ _ _ _ => rfl) ⟨rfl, rfl⟩ (.inl rfl)

theorem commandBufferClearBuffer_eq (hc : c ≠ 0)
    (hheader : validateCommandBufferHeader c = true) (s : Buffers) :
    commandBufferClearBuffer c s =
      if loadWord s.memory (c + 0x10) 8 = 0 ∨ loadWord s.memory (c + 0x0c) 4 = 0 then (0, s)
      else (loadWord s.memory (c + 0x10) 8, eraseCommandBufferState c
        { s with memory := storeWord (c + 0x0c) 4 0 (storeWord (c + 0x10) 8 0 s.memory) }) := by
  have hwrite : writeVisibleCommandBufferPointers c 0 0 s = (true,
      { s with memory := storeWord (c + 0x0c) 4 0 (storeWord (c + 0x10) 8 0 s.memory) }) := by
    unfold writeVisibleCommandBufferPointers
    rw [hheader]
    rfl
  unfold commandBufferClearBuffer
  rw [if_neg hc, hheader, if_neg Bool.true_eq_false_eq_False, hwrite]
  rfl

theorem Agrees.clearBuffer (h : Agrees s k) (hc : c = 0 ∨ k.Live c)
    (hapart : ((Call.ClearBuffer c).note s k).Apart) :
    Agrees ((Call.ClearBuffer c).run s) ((Call.ClearBuffer c).note s k) := by
  show Agrees (commandBufferClearBuffer c s).2
    (if (commandBufferClearBuffer c s).1 ≠ 0 then k.forget c (some none) else k)
  change (if (commandBufferClearBuffer c s).1 ≠ 0 then k.forget c (some none)
    else k).Apart at hapart
  rcases hc with rfl | hlive
  · have hnull : commandBufferClearBuffer 0 s = (0, s) := rfl
    rw [hnull, if_neg (not_not.mpr rfl)]
    exact h
  · have hheader := h.header hlive
    rw [commandBufferClearBuffer_eq (h.ne_zero hlive) hheader] at hapart ⊢
    by_cases hunset : loadWord s.memory (c + 0x10) 8 = 0 ∨ loadWord s.memory (c + 0x0c) 4 = 0
    · rw [if_pos hunset, if_neg (not_not.mpr rfl)]
      exact h
    · rw [if_neg hunset] at hapart ⊢
      rw [if_pos (fun hzero => hunset (.inl hzero))] at hapart ⊢
      refine h.forget hapart (.inl (h.owner_live hlive)) ?_ ⟨rfl, rfl⟩ (.inr ⟨rfl, hheader, ?_⟩)
      · intro x hx hlivex i h1 h2
        have hheaders := h.apart.headers x c hlivex hlive hx
        unfold COMMAND_BUFFER_SIZE at hheaders
        show storeWord (c + 0x0c) 4 0 (storeWord (c + 0x10) 8 0 s.memory) i = _
        unfold storeWord
        rw [copyBlock_of_not_mem (by omega), copyBlock_of_not_mem (by omega)]
      · show loadWord (storeWord (c + 0x0c) 4 0 (storeWord (c + 0x10) 8 0 s.memory))
          (c + 0x10) 8 = 0
        rw [loadWord_storeWord_other (by omega), loadWord_storeWord, Nat.zero_mod]

/-- The header of a command buffer that was bound: its record buffer, and nothing recorded. -/
def boundHeader (c : ℕ) (area : Area) (memory : ℕ → UInt8) : ℕ → UInt8 :=
  storeWord (c + 0x08) 4 0 (storeWord (c + 0x04) 4 0 (storeWord (c + 0x0c) 4 area.size
    (storeWord (c + 0x10) 8 area.buffer memory)))

theorem Agrees.bind (h : Agrees s k) (hlive : k.Live c)
    (hbuffer : area.buffer ≠ 0) (haddress : area.buffer ≤ UINT64_MAX) (hsize : area.size ≠ 0)
    (hsmall : area.size < 0x100000000) (hapart : (k.bind c area).Apart) :
    (writeCommandBufferPointers c area.buffer area.size s).1 = true ∧
      Agrees (resetNum c (writeCommandBufferPointers c area.buffer area.size s).2)
        (k.bind c area) := by
  have hheader := h.header hlive
  have hself : (k.bind c area).bound c = some (some area) := update_self ..
  have hother : ∀ x, x ≠ c → (k.bind c area).bound x = k.bound x :=
    fun x hx => update_of_ne hx ..
  have hlive' : (k.bind c area).Live c := by
    unfold Book.Live
    rw [hself]
    rfl
  have hne : area.buffer ≠ c := hapart.ne_buffer hlive' hself hsize
  have hwrite : ¬ (UINT32_MAX < area.size ∨ validateCommandBufferHeader c = false) := by
    rw [hheader]
    unfold UINT32_MAX
    simp
    omega
  unfold writeCommandBufferPointers
  rw [if_neg hwrite]
  refine ⟨rfl, h.step_at hapart ?_ ?_ hother (fun x hx => update_of_ne hx ..)
    (fun x hx => update_of_ne hx ..) ?_ ?_⟩
  · show registerCommandBufferAlias c area.buffer s.g_command_buffer_aliases = _
    unfold registerCommandBufferAlias
    rw [if_pos ⟨hbuffer, hne⟩, h.aliases]
    rfl
  · intro buffer x hx
    by_cases hb : buffer = area.buffer
    · have hx' : update (dropAliases c k.owner) area.buffer (some c) buffer = some x := hx
      rw [hb, update_self] at hx'
      cases hx'
      exact ⟨area.size, by rw [hself, hb]⟩
    · have hx' : dropAliases c k.owner buffer = some x := by
        rw [← hx]
        exact (update_of_ne hb ..).symm
      unfold dropAliases at hx'
      split at hx'
      · exact absurd hx' nofun
      next hnotown =>
        have hxc : x ≠ c := by
          rintro rfl
          exact hnotown hx'
        rw [hother x hxc]
        exact h.owned buffer x hx'
  · intro x hx hlivex i h1 h2
    have hheaders := h.apart.headers x c hlivex hlive hx
    unfold COMMAND_BUFFER_SIZE at hheaders
    show boundHeader c area s.memory i = _
    unfold boundHeader storeWord
    rw [copyBlock_of_not_mem (by omega), copyBlock_of_not_mem (by omega),
      copyBlock_of_not_mem (by omega), copyBlock_of_not_mem (by omega)]
  · have hrecorded : (k.bind c area).recorded c = [] := update_self ..
    rw [hself, hrecorded]
    exact
      { header := hheader
        data := by
          show loadWord (boundHeader c area s.memory) (c + 0x10) 8 = _
          unfold boundHeader
          rw [loadWord_storeWord_other (by omega), loadWord_storeWord_other (by omega),
            loadWord_storeWord_other (by omega), loadWord_storeWord]
          unfold UINT64_MAX at haddress
          exact Nat.mod_eq_of_lt (by omega)
        size := by
          show loadWord (boundHeader c area s.memory) (c + 0x0c) 4 = _
          unfold boundHeader
          rw [loadWord_storeWord_other (by omega), loadWord_storeWord_other (by omega),
            loadWord_storeWord]
          exact Nat.mod_eq_of_lt (by omega)
        visible := by
          show loadWord (boundHeader c area s.memory) (c + 0x04) 4 = 0
          unfold boundHeader
          rw [loadWord_storeWord_other (by omega), loadWord_storeWord, Nat.zero_mod]
        nonzero := hbuffer
        nonempty := hsize
        small := hsmall
        fits := Nat.zero_le _
        ordered := ⟨.nil, nofun⟩
        measured := rfl
        state := ⟨_, update_self .., ⟨rfl, rfl, rfl, rfl, rfl, rfl⟩, rfl, rfl⟩ }

theorem commandBufferSetBuffer_cases (hc : c ≠ 0)
    (hheader : validateCommandBufferHeader c = true) (s : Buffers) :
    (∃ error, commandBufferSetBuffer c buffer size s = (.error error, s)) ∨
      (commandBufferSetBuffer c buffer size s =
          (.ok (), resetNum c (writeCommandBufferPointers c buffer size s).2) ∧
        buffer ≠ 0 ∧ size ≠ 0 ∧ size < 0x100000000) := by
  unfold commandBufferSetBuffer
  rw [if_neg hc, hheader, if_neg Bool.true_eq_false_eq_False]
  by_cases hargs : buffer = 0 ∨ buffer % 4 ≠ 0 ∨ size = 0 ∨ COMMAND_BUFFER_SIZE_MAX < size ∨
      size % 4 ≠ 0
  · rw [if_pos hargs]
    exact .inl ⟨_, rfl⟩
  · rw [if_neg hargs]
    by_cases hbusy : loadWord s.memory (c + COMMAND_BUFFER_DATA_OFFSET) 8 ≠ 0
    · rw [if_pos hbusy]
      exact .inl ⟨_, rfl⟩
    · rw [if_neg hbusy]
      unfold COMMAND_BUFFER_SIZE_MAX at hargs
      have hsmall : size < 0x100000000 := by omega
      have hwritten : (writeCommandBufferPointers c buffer size s).1 = true := by
        unfold writeCommandBufferPointers UINT32_MAX
        rw [hheader, if_neg (by simp; omega)]
      dsimp only
      rw [hwritten, if_neg Bool.true_eq_false_eq_False]
      exact .inr ⟨rfl, fun hzero => hargs (.inl hzero),
        fun hzero => hargs (.inr (.inr (.inl hzero))), hsmall⟩

theorem Agrees.setBuffer (h : Agrees s k) (hc : c = 0 ∨ k.Live c)
    (haddress : buffer ≤ UINT64_MAX) (hapart : ((Call.SetBuffer c buffer size).note s k).Apart) :
    Agrees ((Call.SetBuffer c buffer size).run s) ((Call.SetBuffer c buffer size).note s k) := by
  show Agrees (commandBufferSetBuffer c buffer size s).2
    (if (commandBufferSetBuffer c buffer size s).1 = .ok () then k.bind c ⟨buffer, size⟩ else k)
  change (if (commandBufferSetBuffer c buffer size s).1 = .ok () then k.bind c ⟨buffer, size⟩
    else k).Apart at hapart
  rcases hc with rfl | hlive
  · have hnull : commandBufferSetBuffer 0 buffer size s = (.error KERNEL_ERROR_EINVAL, s) := rfl
    rw [hnull, if_neg nofun]
    exact h
  · rcases commandBufferSetBuffer_cases (h.ne_zero hlive) (h.header hlive) s with
      ⟨error, herror⟩ | ⟨hok, hbuffer, hsize, hsmall⟩
    · rw [herror, if_neg nofun]
      exact h
    · rw [hok, if_pos rfl] at hapart ⊢
      exact (h.bind hlive hbuffer haddress hsize hsmall hapart).2

theorem writeCommandBufferPointers_store
    (hwritten : (writeCommandBufferPointers c buffer size s).1 = true) :
    writeCommandBufferPointers c buffer size (s.store c state) =
      writeCommandBufferPointers c buffer size s := by
  unfold writeCommandBufferPointers at hwritten ⊢
  split at hwritten
  · nomatch hwritten
  next hvalid =>
    rw [if_neg hvalid, if_neg hvalid]
    unfold store
    rw [update_idem]

theorem Agrees.reset (h : Agrees s k) (hc : c = 0 ∨ k.Live c)
    (hapart : ((Call.Reset c).note s k).Apart) :
    Agrees ((Call.Reset c).run s) ((Call.Reset c).note s k) := by
  change (if (commandBufferReset c s).1 = .ok () then (match k.bound c with
    | some (some area) => k.bind c area
    | _ => k) else k).Apart at hapart
  show Agrees (commandBufferReset c s).2 (if (commandBufferReset c s).1 = .ok () then
    (match k.bound c with
      | some (some area) => k.bind c area
      | _ => k) else k)
  rcases hc with rfl | hlive
  · have hnull : commandBufferReset 0 s = (.error KERNEL_ERROR_EPERM, s) := rfl
    rw [hnull, if_neg nofun]
    exact h
  · obtain ⟨state, r, hview, -, -, hcase⟩ := h.view_live hlive
    have halias : s.g_command_buffer_aliases c = none := by
      rw [h.aliases]
      exact h.owner_live hlive
    have htry := tryGetCommandBufferState_of_view hview halias
    rcases hcase with ⟨-, hnobuffer, -⟩ | ⟨area, hbound, -, hbuffer, hsize⟩
    · have hrefused : commandBufferReset c s = (.error KERNEL_ERROR_EPERM, s.store c state) := by
        unfold commandBufferReset
        rw [if_neg (h.ne_zero hlive), htry]
        exact if_pos hnobuffer
      rw [hrefused, if_neg nofun]
      exact h.touch hview (.inr ⟨state, .refl state, rfl⟩)
    · have hold := h.bound c area hbound
      have hwritten : (writeCommandBufferPointers c area.buffer area.size s).1 = true := by
        have hsmall := hold.small
        unfold writeCommandBufferPointers UINT32_MAX
        rw [hold.header, if_neg (by simp; omega)]
      have hok : commandBufferReset c s =
          (.ok (), resetNum c (writeCommandBufferPointers c area.buffer area.size s).2) := by
        unfold commandBufferReset
        rw [if_neg (h.ne_zero hlive), htry]
        dsimp only
        rw [hbuffer, hsize, if_neg hold.nonzero, writeCommandBufferPointers_store hwritten,
          hwritten, if_neg Bool.true_eq_false_eq_False]
      rw [hok, if_pos rfl, hbound] at hapart ⊢
      have haddress : area.buffer ≤ UINT64_MAX := by
        have hword := loadWord_lt s.memory (c + 0x10) 8
        rw [hold.data] at hword
        unfold UINT64_MAX
        omega
      exact (h.bind hlive hold.nonzero haddress hold.nonempty hold.small hapart).2

theorem Agrees.submit (h : Agrees s k) (address : ℕ) (outcome : Command → ℤ) :
    Agrees (submitCommandBuffer outcome address s).2 k := by
  unfold submitCommandBuffer
  split
  · exact h
  · unfold executeAprCommandBuffer tryGetCommandBufferState
    cases hresolve : resolveCommandBufferState address s with
    | some state => exact h
    | none =>
      cases hload : loadCommandBufferStateFromGuest address s.memory with
      | none => exact h
      | some state =>
        -- nothing is kept for the address, so that its header is what is seen
        have hown : s.g_command_buffers address = none := by
          unfold resolveCommandBufferState at hresolve
          dsimp only at hresolve
          split at hresolve
          · exact hresolve
          · split at hresolve
            · exact hresolve
            · split at hresolve
              · exact absurd hresolve nofun
              · exact hresolve
        have hview : s.view address = some state := by
          unfold Buffers.view
          rw [hown]
          exact hload
        exact h.touch hview (.inr ⟨state, .refl state, rfl⟩)

end Step

/-- **Every run** keeps the tables and the headers in agreement with its book. -/
theorem Reachable.agrees {memory : ℕ → UInt8} (h : Reachable memory s k) : Agrees s k := by
  induction h with
  | start =>
    exact
      { apart := ⟨fun _ _ h => absurd h nofun, fun _ _ _ h => absurd h nofun⟩
        aliases := rfl
        owned := fun _ _ h => absurd h nofun
        unbound := fun _ h => absurd h nofun
        bound := fun _ _ h => absurd h nofun
        dead := fun _ _ _ h => absurd h nofun }
  | step _ call hmeant hapart ih =>
    cases call with
    | Constructor c => exact ih.constructor c hapart
    | Destructor c => exact ih.destructor hmeant hapart
    | SetBuffer c buffer size => exact ih.setBuffer hmeant.1 hmeant.2 hapart
    | Append c call => exact ih.append hmeant call
    | Reset c => exact ih.reset hmeant hapart
    | ClearBuffer c => exact ih.clearBuffer hmeant hapart
    | Submit address outcome => exact ih.submit address outcome

/-! ## Submissions -/

theorem executeOrdered_executes (outcome : Command → ℤ) {commands : List Command}
    (h : ∀ command ∈ commands, command.record_offset < 0x100000000) :
    (executeOrdered outcome commands).Executes outcome commands := by
  induction commands with
  | nil => exact .inl ⟨rfl, fun _ hmem => absurd hmem not_mem_nil, rfl, rfl⟩
  | cons command rest ih =>
    unfold executeOrdered
    by_cases hok : outcome command = 0
    · rw [if_pos hok]
      rcases ih fun c hc => h c (.tail _ hc) with
        ⟨hexecuted, hall, hresult, hoffset⟩ |
        ⟨done, failed, rest', hsplit, hdone, hfailed, hexecuted, hresult, hoffset⟩
      · refine .inl ⟨congrArg (command :: ·) hexecuted, ?_, hresult, hoffset⟩
        exact forall_mem_cons.mpr ⟨hok, hall⟩
      · refine .inr ⟨command :: done, failed, rest', congrArg (command :: ·) hsplit, ?_,
          hfailed, congrArg (command :: ·) hexecuted, hresult, hoffset⟩
        exact forall_mem_cons.mpr ⟨hok, hdone⟩
    · rw [if_neg hok]
      refine .inr ⟨[], command, rest, rfl, fun _ hmem => absurd hmem not_mem_nil, hok, rfl, rfl, ?_⟩
      exact Nat.mod_eq_of_lt (h command mem_cons_self)

theorem ordered_of_not_queued (h : hasQueuedCommands state = false) : state.ordered = [] := by
  have hqueued : state.queued = [] := by
    unfold hasQueuedCommands at h
    unfold queued
    simp at h
    simp [h]
  unfold ordered
  rw [hqueued]
  rfl

section Step

theorem Bound.executes (h : Bound s c calls area)
    (hholds : state.Holds (of calls)) (outcome : Command → ℤ) :
    (executeOrdered outcome state.ordered).Executes outcome (of calls).commands := by
  rw [hholds.ordered_eq h.ordered]
  apply executeOrdered_executes
  intro command hcommand
  have hbelow := h.ordered.below command hcommand
  have hfits := h.fits
  have hsmall := h.small
  omega

theorem executes_nothing (outcome : Command → ℤ) (result : Except KernelError Unit) :
    ({ result } : Submission).Executes outcome (of []).commands :=
  .inl ⟨rfl, fun _ hmem => absurd hmem not_mem_nil, rfl, rfl⟩

theorem any_queued_of_dead
    (h : ∀ state, s.g_command_buffers x = some state → hasQueuedCommands state = false) :
    (s.g_command_buffers x).any hasQueuedCommands = false := by
  cases hown : s.g_command_buffers x with
  | none => rfl
  | some state => exact h state hown

/-- **One submission** of a command buffer, or through a record buffer. -/
theorem Agrees.executes (h : Agrees s k) (address : ℕ) (outcome : Command → ℤ) :
    (submitCommandBuffer outcome address s).1.Executes outcome
      (of (k.recordedAt address)).commands := by
  unfold submitCommandBuffer Book.recordedAt
  by_cases hzero : address = 0
  · rw [if_pos hzero]
    have hdead : k.bound address = none := by
      by_contra hlive
      exact h.ne_zero (Option.isSome_iff_ne_none.mpr hlive) hzero
    have howner : k.owner address = none := by
      cases howner : k.owner address with
      | none => rfl
      | some c =>
        obtain ⟨size, hbound⟩ := h.owned address c howner
        exact absurd hzero (h.bound c _ hbound).nonzero
    rw [hdead]
    rw [howner]
    exact executes_nothing outcome _
  · rw [if_neg hzero]
    unfold executeAprCommandBuffer
    cases hbound : k.bound address with
    | some area =>
      have hlive : k.Live address := by rw [Book.Live, hbound]; rfl
      obtain ⟨state, r, hview, hholds, -, hcase⟩ := h.view_live hlive
      rw [tryGetCommandBufferState_of_view hview (by rw [h.aliases]; exact h.owner_live hlive)]
      rcases hcase with ⟨hnone, -, rfl⟩ | ⟨area, hsome, rfl, -, -⟩
      · have hempty : ({ offset := state.write_offset } : Recording).Ordered :=
          ⟨.nil, nofun⟩
        dsimp only
        rw [hholds.ordered_eq hempty, (h.unbound address hnone).nothing]
        exact executes_nothing outcome _
      · exact (h.bound address area hsome).executes hholds outcome
    | none =>
      have hdead := h.dead address hbound
      cases howner : k.owner address with
      | some c =>
        -- the record buffer of `c`, whose state is in the table
        obtain ⟨size, hboundc⟩ := h.owned address c howner
        obtain ⟨state, htable, hholds, -, -⟩ := (h.bound c _ hboundc).state
        have hresolve : resolveCommandBufferState address s = some state := by
          unfold resolveCommandBufferState
          dsimp only
          rw [any_queued_of_dead hdead, if_neg nofun, h.aliases, howner]
          dsimp only
          rw [htable]
        unfold tryGetCommandBufferState
        rw [hresolve]
        exact (h.bound c _ hboundc).executes hholds outcome
      | none =>
        have hresolve : resolveCommandBufferState address s = s.g_command_buffers address := by
          unfold resolveCommandBufferState
          dsimp only
          rw [any_queued_of_dead hdead, if_neg nofun, h.aliases, howner]
        unfold tryGetCommandBufferState
        rw [hresolve]
        cases hown : s.g_command_buffers address with
        | some state =>
          dsimp only
          rw [ordered_of_not_queued (hdead state hown)]
          exact executes_nothing outcome _
        | none =>
          cases hload : loadCommandBufferStateFromGuest address s.memory with
          | none => exact executes_nothing outcome _
          | some state =>
            have hstate := loadCommandBufferStateFromGuest_holds hload
            show (executeOrdered outcome state.ordered).Executes outcome _
            rw [ordered_of_not_queued hstate.2.2.2]
            exact executes_nothing outcome _

end Step

/-! ## The run -/

/-- **Command buffers execute what was recorded.** In every state of a run a submission
executes the commands of the calls that were accepted since the command buffer was set,
reset or cleared; an append that is refused leaves memory, the aliases, the commands and
all other command buffers as they are; and the write offset that the guest sees is that
of the host, the sum of the measures of these calls, and within the record buffer. -/
theorem recorded_commands_executed {memory : ℕ → UInt8} {s : Buffers} {k : Book}
    (h : Reachable memory s k) :
    (∀ address outcome, (submitCommandBuffer outcome address s).1.Executes outcome
      (Recording.of (k.recordedAt address)).commands) ∧
    (∀ c call error, c = 0 ∨ k.Live c → (run c call s).1 = .error error →
      (run c call s).2.memory = s.memory ∧
      (run c call s).2.g_command_buffer_aliases = s.g_command_buffer_aliases ∧
      ((run c call s).2.view c).map CommandBufferState.queued =
        (s.view c).map CommandBufferState.queued ∧
      ∀ x, x ≠ c → (run c call s).2.g_command_buffers x = s.g_command_buffers x) ∧
    (∀ c area, k.bound c = some (some area) →
      measured (k.recorded c) = .ok (commandBufferGetCurrentOffset c s) ∧
      commandBufferGetCurrentOffset c s ≤ commandBufferGetSize c s ∧
      commandBufferGetSize c s = area.size ∧
      ∃ state, s.g_command_buffers c = some state ∧
        state.write_offset = commandBufferGetCurrentOffset c s) := by
  have hagrees := h.agrees
  refine ⟨hagrees.executes, ?_, ?_⟩
  · intro c call error hc herror
    rcases hc with rfl | hlive
    · obtain ⟨-, hsame⟩ := append_null call s
      rw [hsame]
      exact ⟨rfl, rfl, rfl, fun _ _ => rfl⟩
    · obtain ⟨state, r, hview, hholds, hsmall, -⟩ := hagrees.view_live hlive
      have halias : s.g_command_buffer_aliases c = none := by
        rw [hagrees.aliases]
        exact hagrees.owner_live hlive
      rcases append_spec hview hholds hsmall halias (hagrees.ne_zero hlive) call with
        ⟨hok, -⟩ | ⟨-, huntouched⟩
      · rw [hok] at herror
        exact absurd herror nofun
      · rcases huntouched with hsame | ⟨state', ⟨_, _, rfl⟩, hstored⟩
        · rw [hsame]
          exact ⟨rfl, rfl, rfl, fun _ _ => rfl⟩
        · rw [hstored, hview, Buffers.view_store]
          exact ⟨rfl, rfl, rfl, fun x hx => Function.update_of_ne hx ..⟩
  · intro c area hbound
    have hown := hagrees.bound c area hbound
    obtain ⟨state, htable, hholds, -, -⟩ := hown.state
    have hvisible : commandBufferGetCurrentOffset c s = (Recording.of (k.recorded c)).offset :=
      hown.visible
    have hsize : commandBufferGetSize c s = area.size := hown.size
    rw [hvisible, hsize]
    exact ⟨hown.measured, hown.fits, rfl, state, htable, hholds.offset⟩

theorem apart_of_single (hother : ∀ x, x ≠ c → k.bound x = none)
    (harea : ∀ area, k.bound c = some (some area) →
      c + 0x18 ≤ area.buffer ∨ area.buffer + area.size ≤ c) : k.Apart := by
  have honly : ∀ x, k.Live x → x = c := by
    intro x hx
    by_contra hne
    rw [Book.Live, hother x hne] at hx
    nomatch hx
  constructor
  · intro x x' hx hx' hne
    exact absurd ((honly x hx).trans (honly x' hx').symm) hne
  · intro x x' area hx hx'
    obtain rfl := honly x hx
    obtain rfl := honly x' (by rw [Book.Live, hx']; rfl)
    exact harea area hx'

/-- A nop and a write, submitted through the record buffer; the write fails, and is reported
with its offset. -/
theorem recorded_commands_executed_two : ∃ s k, Reachable (fun _ => 0) s k ∧
    k.recordedAt 0x2000 = [.Nop 3, .WriteAddress 0x3000 7] ∧
    (submitCommandBuffer (fun _ => -1) 0x2000 s).1.Executes (fun _ => -1)
      [.WriteAddress { record_offset := 12, address := 0x3000, value := 7 }] := by
  let k := (Book.empty.forget 0x1000 (some none)).bind 0x1000 ⟨0x2000, 0x100⟩
  have hother : ∀ x, x ≠ 0x1000 → k.bound x = none := by
    intro x hx
    show Function.update (Function.update Book.empty.bound 0x1000 _) 0x1000 _ x = none
    rw [Function.update_of_ne hx, Function.update_of_ne hx]
    rfl
  have hapart : k.Apart := apart_of_single hother (by rintro area ⟨⟩; decide)
  have hconstructed : Reachable (fun _ => 0) ((Buffers.start fun _ => 0).runCalls
      [.Constructor 0x1000]) (Book.empty.forget 0x1000 (some none)) := by
    refine Reachable.start.step (.Constructor 0x1000) trivial ?_
    exact apart_of_single (fun x hx => Function.update_of_ne hx ..) (by rintro area ⟨⟩)
  have hset : Reachable (fun _ => 0) ((Buffers.start fun _ => 0).runCalls
      [.Constructor 0x1000, .SetBuffer 0x1000 0x2000 0x100]) k :=
    hconstructed.step (.SetBuffer 0x1000 0x2000 0x100) ⟨Or.inr rfl, by decide⟩ hapart
  have hnop : Reachable (fun _ => 0) ((Buffers.start fun _ => 0).runCalls
      [.Constructor 0x1000, .SetBuffer 0x1000 0x2000 0x100, .Append 0x1000 (.Nop 3)])
      (k.record 0x1000 (.Nop 3)) :=
    hset.step (.Append 0x1000 (.Nop 3)) (.inr rfl) ⟨hapart.headers, hapart.areas⟩
  have hwrite : Reachable (fun _ => 0) ((Buffers.start fun _ => 0).runCalls
      [.Constructor 0x1000, .SetBuffer 0x1000 0x2000 0x100, .Append 0x1000 (.Nop 3),
        .Append 0x1000 (.WriteAddress 0x3000 7)])
      ((k.record 0x1000 (.Nop 3)).record 0x1000 (.WriteAddress 0x3000 7)) :=
    hnop.step (.Append 0x1000 (.WriteAddress 0x3000 7)) (.inr rfl) ⟨hapart.headers, hapart.areas⟩
  exact ⟨_, _, hwrite, rfl, (recorded_commands_executed hwrite).1 0x2000 fun _ => -1⟩

/-- A cleared command buffer keeps its write offset, past its size 0. A header under a record
buffer loses it, and one over another header is given an offset. And of two command buffers
with one record buffer the second takes its address, so that once it is cleared nothing is
executed through it. -/
theorem cleared_offset_past_size :
    (let s := (Buffers.start fun _ => 0).runCalls
      [.Constructor 0x1000, .SetBuffer 0x1000 0x2000 0x100,
        .Append 0x1000 (.WriteAddress 0x3000 7), .ClearBuffer 0x1000]
    commandBufferGetCurrentOffset 0x1000 s = 32 ∧ commandBufferGetSize 0x1000 s = 0) ∧
    (let s := (Buffers.start fun _ => 0).runCalls
      [.Constructor 0x1000, .Constructor 0x2000, .SetBuffer 0x2000 0x3000 0x100,
        .Append 0x2000 (.WriteAddress 0x4000 7), .SetBuffer 0x1000 0x2000 0x100]
    commandBufferGetCurrentOffset 0x2000 s = 32 ∧
      (run 0x1000 .WaitOnAddress s).1 = .ok () ∧
      commandBufferGetCurrentOffset 0x2000 (run 0x1000 .WaitOnAddress s).2 = 0) ∧
    (let s := (Buffers.start fun _ => 0).runCalls
      [.Constructor 0x1000, .Constructor 0x1008, .SetBuffer 0x1000 0x2000 0x100]
    commandBufferGetCurrentOffset 0x1008 s = 0x100 ∧ commandBufferGetSize 0x1008 s = 0) ∧
    (let s := (Buffers.start fun _ => 0).runCalls
      [.Constructor 0x1000, .Constructor 0x2000, .SetBuffer 0x1000 0x3000 0x100,
        .Append 0x1000 (.WriteAddress 0x4000 7), .SetBuffer 0x2000 0x3000 0x100,
        .ClearBuffer 0x2000]
    (submitCommandBuffer (fun _ => 0) 0x1000 s).1.executed =
        [.WriteAddress { record_offset := 0, address := 0x4000, value := 7 }] ∧
      (submitCommandBuffer (fun _ => 0) 0x3000 s).1.executed = []) := by
  decide

end MagnusPS5.Ampr
