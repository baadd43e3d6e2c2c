/-
Validated values at run time (`SrtWalker.cpp`).

`runtime_values_evaluate` brings together the plan of the flattened reads, the validation
of a resource source and its evaluation. The evaluation of a source that
`ValidateRuntimeValue` accepts always returns. It fails only for a refused read or an index
out of range if the reads in the slots that the source leads to are accepted as well and do
not lead back to themselves. `BuildSrtPlan` does not see to this: it takes the addresses of
reads as they are, so that an accepted source can stand for a read through a pointer that
depends on control flow (`runtime_values_chosen`).
-/
import MagnusPS5.Shader.SrtPlan

namespace MagnusPS5.Shader

open Lib Evaluators

/-- No evaluation is under way. -/
def Evaluators.Idle (s : Evaluators) : Prop := ∀ clean, (s.active clean).visiting = []

namespace RuntimeProgram

/-- The value of the read is accepted, and so are those in the slots that it leads to, with an
end to it. -/
inductive ReadAccepted (P : RuntimeProgram) : SrtRead → Prop
  | intro {read : SrtRead} (hvalid : P.validateRuntimeValue read.value = .ok ())
      (h : ∀ next, P.LeadsTo read.value next → ReadAccepted P next) : ReadAccepted P read

variable {P : RuntimeProgram} {types : ℕ → IRType} {value : Value} {read : SrtRead}

theorem srt_read_of_leadsTo (h : P.LeadsTo value read) : read ∈ P.srt_reads := by
  induction h with
  | slot _ _ hread => exact srtSlot_mem hread
  | operand _ _ _ _ ih => exact ih

theorem IsInteger.of_getType (h : P.Typed types) (hvalue : P.ValueAttached value)
    (htype : P.getType value = .u32) : P.IsInteger types value := by
  refine ⟨hvalue, ?_⟩
  have hresolve : Program.valueType types (P.resolve value) = Program.valueType types value :=
    h.type_resolveIn _ hvalue
  rw [← hresolve]
  unfold ValueProgram.getType at htype
  cases hroot : P.resolve value with
  | inst i =>
    have hid : i ∈ P.ids := h.attached.resolve hvalue i hroot
    rw [hroot] at htype
    change P.instType i = .u32 at htype
    change (types i).isInteger = true
    unfold ValueProgram.instType at htype
    split at htype
    next hphi =>
      rw [(h.phi i hid hphi).1, htype]
      rfl
    next hphi =>
      have hidentity : (P.insts i).opcode ≠ .identity := by
        intro hidentity
        rw [hidentity] at htype
        nomatch htype
      rw [(h.inst i hid hphi hidentity).1, htype]
      rfl
  | u32 => rfl
  | _ =>
    rw [hroot] at htype
    nomatch htype

theorem ReadAccepted.evaluable (h : P.Typed types) (hslots : P.SlotsRead)
    (haccepted : P.ReadAccepted read) (hread : read ∈ P.srt_reads) : P.Evaluable read.value := by
  induction haccepted with
  | @intro read hvalid _ ih =>
    obtain ⟨i, hi, hisread⟩ := hslots read hread
    have hinteger : P.IsInteger types read.value := by
      refine ⟨hslots.attached read hread, ?_⟩
      rw [hi]
      change (types i).isInteger = true
      rw [h.read_type hisread]
      rfl
    exact Accepted.evaluable h ⟨[], hvalid⟩ hinteger fun next hnext =>
      ih next hnext (srt_read_of_leadsTo hnext)

theorem within_of_idle {s : Evaluators} (h : s.Idle) :
    Within (fun _ _ _ => True) (fun _ => []) s where
  visiting := h
  cache _ _ _ _ := trivial

theorem evaluate_ends {R : SrtRuntime} {clean_flat_slots : List Bool} {E : EvalError → Prop}
    {Ready : ℕ → (Bool → List ℕ) → Bool → Value → Prop}
    (h : P.Safe R clean_flat_slots (fun _ _ _ => True) E Ready) {clean : Bool}
    (hready : Ready (2 * P.ids.length + 2) (fun _ => []) clean value) :
    Ends Idle (P.evaluate R clean_flat_slots clean value)
      (fun _ => Idle) E := by
  refine .bind ((evaluateWide_ends h hready).imp (fun s hs => within_of_idle hs)
    (fun _ s hs => hs.2) fun _ he => he) fun r => ?_
  exact .pure fun s hs => hs.visiting

theorem evaluate_finishes (h : P.Attached) (hreads : P.ReadsAttached)
    (hvalue : P.ValueAttached value) (R : SrtRuntime) (clean_flat_slots : List Bool) (clean : Bool) :
    Ends Idle (P.evaluate R clean_flat_slots clean value) (fun _ => Idle)
      fun e => e.finished = true := by
  refine evaluate_ends (evaluate_safe h hreads R clean_flat_slots)
    ⟨hvalue, fun _ => List.nodup_nil, fun _ _ hy => (nomatch hy), ?_⟩
  split <;> omega

theorem Evaluable.evaluate_ends (h : P.Evaluable value) (R : SrtRuntime)
    (clean_flat_slots : List Bool) (clean : Bool) :
    Ends Idle (P.evaluate R clean_flat_slots clean value) (fun _ => Idle)
      fun e => e.finished = true → e.allowed = true :=
  RuntimeProgram.evaluate_ends (evaluable_safe R clean_flat_slots)
    ⟨h, fun _ _ _ _ hy => nomatch hy⟩

/-- **Accepted resource sources at run time.** After the plan of the flattened reads, the
evaluation of a source that has been accepted returns for every snapshot; and it succeeds or
fails for a refused read or an index out of range, if the reads in the slots that the source
leads to are accepted as well and do not lead back to themselves. -/
theorem runtime_values_evaluate (P P' : RuntimeProgram) (types : ℕ → IRType)
    (htyped : P.Typed types) (hplan : P.buildSrtPlan = .ok P') (value : Value)
    (hvalue : P'.ValueAttached value) (htype : P'.getType value = .u32)
    (hvalid : P'.validateRuntimeValue value = .ok ())
    (R : SrtRuntime) (clean_flat_slots : List Bool) (clean : Bool) :
    Ends Idle (P'.evaluate R clean_flat_slots clean value) (fun _ => Idle)
      (fun e => e.finished = true) ∧
    ((∀ read, P'.LeadsTo value read → P'.ReadAccepted read) →
      Ends Idle (P'.evaluate R clean_flat_slots clean value) (fun _ => Idle)
        fun e => e.allowed = true) := by
  obtain ⟨⟨types', htyped'⟩, hslots⟩ := buildSrtPlan_planned htyped hplan
  have hfinishes :=
    evaluate_finishes htyped'.attached hslots.attached hvalue R clean_flat_slots clean
  refine ⟨hfinishes, fun hreads => ?_⟩
  have hevaluable : P'.Evaluable value :=
    Accepted.evaluable htyped' ⟨[], hvalid⟩ (IsInteger.of_getType htyped' hvalue htype)
      fun read hread => (hreads read hread).evaluable htyped' hslots (srt_read_of_leadsTo hread)
  exact (hfinishes.and (hevaluable.evaluate_ends R clean_flat_slots clean)).imp (fun _ hs => hs)
    (fun _ _ hs => hs.1) fun _ he => he.2 he.1

/-! ## A pointer that depends on control flow -/

/-- A descriptor whose first word is read through a pointer: user data on one way into the
block of the read, and `rhs` on the other. -/
def pointerProgram (rhs : ℕ) : RuntimeProgram where
  insts i :=
    match i with
    | 0 => { opcode := .getUserData, args := [.scalarReg 0] }
    | 1 => { opcode := .getUserData, args := [.scalarReg 1] }
    | 2 => { opcode := .phi, args := [.inst 0, .inst rhs], phi_blocks := [1, 2] }
    | 3 => { opcode := .getAddressResource, args := [.inst 2, .u32 0] }
    | 4 => { opcode := .loadAddressU32, args := [.inst 3, .u32 0, .u32 0, .u1 true] }
    | _ => { opcode := .getBufferResource, args := [.inst 4, .u32 0, .u32 0, .u32 0] }
  blocks := [[0, 1], [], [], [2, 3, 4, 5]]
  predecessors b :=
    match b with
    | 1 | 2 => [0]
    | 3 => [1, 2]
    | _ => []
  flags i := if i = 2 then 64 else 0
  memory_info := [{ kind := .scalarAddress, offset := 0 }]
  user_data_base := 0
  user_data_count := 2

def pointerTypes : ℕ → IRType
  | 3 => .other 262144
  | 5 => .other 131072
  | _ => .u32

theorem mem_pointerProgram {rhs i : ℕ} (hi : i ∈ (pointerProgram rhs).ids) :
    i = 0 ∨ i = 1 ∨ i = 2 ∨ i = 3 ∨ i = 4 ∨ i = 5 := by
  simpa [pointerProgram, ValueProgram.ids] using hi

theorem pointerProgram_typed {rhs : ℕ} (hrhs : rhs = 0 ∨ rhs = 1) :
    (pointerProgram rhs).Typed pointerTypes where
  attached i hi y hy := by
    have hy : y = 0 ∨ y = rhs ∨ y = 2 ∨ y = 3 ∨ y = 4 := by
      rcases mem_pointerProgram hi with rfl | rfl | rfl | rfl | rfl | rfl <;>
        simp [pointerProgram] at hy <;> omega
    change y ∈ [0, 1, 2, 3, 4, 5]
    simp only [List.mem_cons]
    omega
  inst i hi hphi _ := by
    rcases mem_pointerProgram hi with rfl | rfl | rfl | rfl | rfl | rfl
    · exact ⟨rfl, nofun⟩
    · exact ⟨rfl, nofun⟩
    · exact absurd rfl hphi
    · exact ⟨rfl, fun _ h => Option.some.inj h⟩
    · exact ⟨rfl, fun _ h => Option.some.inj h⟩
    · exact ⟨rfl, fun _ h => Option.some.inj h⟩
  phi i hi hphi := by
    rcases mem_pointerProgram hi with rfl | rfl | rfl | rfl | rfl | rfl
    · nomatch hphi
    · nomatch hphi
    · refine ⟨rfl, fun arg harg => ?_⟩
      rcases List.mem_pair.mp harg with rfl | rfl
      · rfl
      · rcases hrhs with rfl | rfl <;> rfl
    · nomatch hphi
    · nomatch hphi
    · nomatch hphi
  identity i hi hidentity := by
    rcases mem_pointerProgram hi with rfl | rfl | rfl | rfl | rfl | rfl <;> nomatch hidentity

/-- Two words of user data and a memory that is readable everywhere. -/
def snapshot : SrtRuntime where
  user_data := [256, 512]
  shader_base := 0
  read_memory := some fun address => some (address.setWidth 32)
  read_specialization_memory := none
  host_memory _ := 0

/-- **A source that is accepted and cannot be evaluated**: the read in its slot is through a
pointer that depends on control flow. -/
theorem runtime_values_chosen :
    (pointerProgram 1).Typed pointerTypes ∧ ∃ P', (pointerProgram 1).buildSrtPlan = .ok P' ∧
      P'.instArg 5 0 = .inst 7 ∧ P'.ValueAttached (.inst 7) ∧ P'.getType (.inst 7) = .u32 ∧
      P'.validateRuntimeValue (.inst 7) = .ok () ∧
      P'.evaluate snapshot [] false (.inst 7) {} = .error .dependentPhi ∧
      EvalError.dependentPhi.allowed = false := by
  refine ⟨pointerProgram_typed (.inr rfl), _, rfl, rfl, ?_, rfl, rfl, rfl, rfl⟩
  intro y hy
  cases hy
  decide

theorem LeadsTo.inst (h : P.LeadsTo value read) :
    ∃ i, P.resolve value = .inst i ∧
      ((P.insts i).opcode = .readConst ∧ P.srtSlot i = some read ∨
        (P.insts i).opcode ≠ .readConst ∧ ∃ w ∈ (P.recipe i).operands, P.LeadsTo w read) := by
  cases h with
  | slot hi hopcode hread => exact ⟨_, hi, .inl ⟨hopcode, hread⟩⟩
  | operand hi hopcode hw h => exact ⟨_, hi, .inr ⟨hopcode, _, hw, h⟩⟩

/-- The program with the same pointer on both ways. -/
theorem runtime_values_shared :
    ∃ P', (pointerProgram 0).buildSrtPlan = .ok P' ∧
      Ends Idle (P'.evaluate snapshot [] false (.inst 7)) (fun _ => Idle)
        fun e => e.allowed = true := by
  refine ⟨_, rfl, (runtime_values_evaluate (pointerProgram 0) _ pointerTypes
    (pointerProgram_typed (.inl rfl)) rfl (.inst 7) ?_ rfl rfl snapshot [] false).2 ?_⟩
  · intro y hy
    cases hy
    decide
  · intro read hread
    obtain ⟨i, hi, hread | hread⟩ := hread.inst
    · cases hi
      cases hread.2
      refine .intro rfl fun next hnext => ?_
      -- the read asks for the pointer, the pointer for user data
      obtain ⟨i, hi, hnext | ⟨_, w, hw, hnext⟩⟩ := hnext.inst <;> obtain rfl := Value.inst.inj hi
      · exact nomatch hnext.1
      have hw : w ∈ [.inst 2, .u32 0, .u32 0] := hw
      simp only [List.mem_cons, List.not_mem_nil, or_false, or_self] at hw
      obtain ⟨i, hi, hnext | ⟨_, w', hw', hnext⟩⟩ := hnext.inst
      · rcases hw with rfl | rfl
        · cases hi
          exact nomatch hnext.1
        · exact nomatch hi
      rcases hw with rfl | rfl
      · cases hi
        obtain rfl := List.mem_singleton.mp hw'
        obtain ⟨i, hi, hnext | ⟨_, w, hw, _⟩⟩ := hnext.inst <;> obtain rfl := Value.inst.inj hi
        · exact nomatch hnext.1
        · exact nomatch hw
      · exact nomatch hi
    · cases hi
      exact absurd rfl hread.1

end RuntimeProgram

end MagnusPS5.Shader
