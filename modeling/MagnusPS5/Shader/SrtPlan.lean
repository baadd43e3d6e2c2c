/-
The plan of the flattened reads (`SrtWalker.cpp`).

`buildSrtPlan` collects the raw scalar reads behind the descriptors of a program. Those
with an immediate offset get a slot, one for equivalent reads, and are replaced by a
`ReadConst` of the slot; the first read of a slot is kept, referenced, as the value of the
slot. What the program was typed with it is typed with after the plan, and the values in
the slots are raw reads of the program (`buildSrtPlan_planned`).
-/
import MagnusPS5.Shader.RuntimeValidation

namespace MagnusPS5.Shader

open Lib List Ends Value Program

/-! ## `PlanBuilder` -/

/-- Why a program has no plan. -/
inductive PlanError
  /-- cyclic typed planning value without a phi -/
  | cyclic (opcode : ValueOpcode)
  /-- incompatible scalar memory metadata -/
  | crosswired (opcode : ValueOpcode)
  /-- the fuel ran out -/
  | unfinished
  deriving DecidableEq

/-- An error and the program counter it is reported for. -/
structure PlanFailure where
  pc : ℕ
  error : PlanError
  deriving DecidableEq

structure Patch where
  inst : ℕ
  slot : ℕ
  keep : Bool
  deriving DecidableEq

/-- The members of `PlanBuilder`, with the lists of the program that it fills. -/
structure Planner where
  visiting : List ℕ := []
  visited : List ℕ := []
  patches : List Patch := []
  srt_reads : List SrtRead := []
  dynamic_reads : List Value := []

abbrev Planning (α : Type) : Type := StateT Planner (Except PlanFailure) α

namespace RuntimeProgram

variable (P : RuntimeProgram)

variable (i : ℕ)

def isPhi : Bool := (P.insts i).opcode = .phi

/-- The end of `Collect`, for an instruction whose arguments have been collected. -/
def collectRead (s : Planner) : Planner :=
  if P.isRawRead i then
    match P.resolve (P.instArg i 1) with
    | .u32 _ =>
      match s.srt_reads.findIdx? fun read => P.equivalentValue (.inst i) read.value with
      | some slot => { s with patches := s.patches ++ [⟨i, slot, false⟩] }
      | none =>
        { s with
          srt_reads := s.srt_reads ++ [⟨.inst i, s.srt_reads.length, P.memoryPc i⟩]
          patches := s.patches ++ [⟨i, s.srt_reads.length, true⟩] }
    | _ =>
      if .inst i ∈ s.dynamic_reads then s
      else { s with dynamic_reads := s.dynamic_reads ++ [.inst i] }
  else s

def collect : ℕ → ℕ → Value → Planning Unit
  | 0, use_pc, _ => throw ⟨use_pc, .unfinished⟩
  | fuel + 1, use_pc, value =>
    match P.resolve value with
    | .inst i => do
        let s ← get
        if i ∈ s.visiting then
          if (s.visiting.dropWhile (· ≠ i)).any P.isPhi then pure ()
          else throw ⟨use_pc, .cyclic (P.insts i).opcode⟩
        else if i ∈ s.visited then pure ()
        else do
          modify fun s => { s with visiting := s.visiting ++ [i] }
          let _ ← runEach (collect fuel use_pc) (P.insts i).args
          modify fun s =>
            P.collectRead i { s with visiting := s.visiting.dropLast, visited := s.visited ++ [i] }
    | _ => pure ()

/-- The opcode of a read does not fit the kind of its access. -/
def isCrosswired : Bool :=
  match P.memory_info[P.memoryIndex i]? with
  | none => false
  | some info =>
    ((P.insts i).opcode = .loadAddressU32 ∧ info.kind = .scalarBuffer) ∨
      ((P.insts i).opcode = .readConstBuffer ∧ info.kind = .scalarAddress)

/-- The first loop of `Run`, for one instruction. -/
def planDescriptor : Planning Unit :=
  if P.isCrosswired i then throw ⟨P.memoryPc i, .crosswired (P.insts i).opcode⟩
  else if (P.insts i).opcode.descriptorDwords.isSome then do
    let _ ← runEach (P.collect (P.ids.length + 1) 0) (P.insts i).args
  else pure ()

/-- The second loop of `Run`, for one instruction. -/
def planAddress : Planning Unit := do
  let s ← get
  if (P.insts i).opcode = .loadAddressU32 ∧ P.isRawRead i ∧
      (P.definition (P.instArg i 1)).isNone ∧
      { P with srt_reads := s.srt_reads }.validateRuntimeValue (.inst i) = .ok () then
    P.collect (P.ids.length + 1) (P.memoryPc i) (.inst i)
  else pure ()

/-- The two loops of `Run`. -/
def collectReads : Planning Unit := do
  let _ ← runEach P.planDescriptor P.ids
  let _ ← runEach P.planAddress P.ids

/-! ## `PatchReads` -/

/-- A number that no instruction has. -/
def freshId : ℕ := P.ids.foldr max 0 + 1

/-- The new instructions before a read, and the reference at the end of the block. -/
def patchBlock (patch : Patch) (block : List ℕ) : List ℕ :=
  if patch.inst ∈ block then
    (block.flatMap fun n => if n = patch.inst then [P.freshId, P.freshId + 1, n] else [n]) ++
      if patch.keep then [P.freshId + 2] else []
  else block

/-- The instructions after a patch: a `GetSrtResource`, the flattened read, which replaces the
raw one in its uses, and the reference to it. -/
def patchInst (patch : Patch) (n : ℕ) : Inst :=
  if n = P.freshId then { opcode := .getSrtResource, args := [] }
  else if n = P.freshId + 1 then
    { opcode := .readConst, args := [.inst P.freshId, .u32 (BitVec.ofNat 32 patch.slot)] }
  else if n = P.freshId + 2 then { opcode := .referenceU32, args := [.inst patch.inst] }
  else
    { P.insts n with
      args := (P.insts n).args.map fun arg =>
        if arg = .inst patch.inst then .inst (P.freshId + 1) else arg }

/-- The value of a block after a patch. -/
def patchValue (P' : RuntimeProgram) (patch : Patch) (flat : ℕ) (value : Value) : Value :=
  if P'.resolve value = .inst patch.inst then .inst flat else value

/-- The body of `PatchReads`. -/
def patchRead (patch : Patch) : RuntimeProgram :=
  let flat := P.freshId + 1
  let patched : RuntimeProgram :=
    { P with
      insts := P.patchInst patch
      blocks := P.blocks.map (P.patchBlock patch)
      flags := fun n => if P.freshId ≤ n ∧ n ≤ P.freshId + 2 then 0 else P.flags n }
  { patched with
    block_info := P.block_info.map fun info =>
      { condition := patched.patchValue patch flat info.condition
        indirect_target := patched.patchValue patch flat info.indirect_target }
    memory_info :=
      if patch.keep then P.memory_info.modify (P.memoryIndex patch.inst) fun info =>
        { info with planning_only := true }
      else P.memory_info }

def buildSrtPlan : Except PlanFailure RuntimeProgram :=
  match P.collectReads {} with
  | .ok (_, s) => .ok (s.patches.foldl patchRead
      { P with srt_reads := s.srt_reads, dynamic_reads := s.dynamic_reads })
  | .error e => .error e

/-! ## What the planner collects -/

section Collected

variable {P}

/-- A raw read of the program. -/
def IsRead (P : RuntimeProgram) (i : ℕ) : Prop := i ∈ P.ids ∧ isRuntimeRead (P.insts i).opcode = true

/-- The planner has collected raw reads of the program. -/
structure Collected (P : RuntimeProgram) (s : Planner) : Prop where
  patches : ∀ patch ∈ s.patches, P.IsRead patch.inst
  reads : ∀ read ∈ s.srt_reads, ∃ i, read.value = .inst i ∧ P.IsRead i

theorem isRuntimeRead_of_isRawRead {i : ℕ} (h : P.isRawRead i = true) :
    isRuntimeRead (P.insts i).opcode = true := by
  unfold isRawRead at h
  split at h
  · nomatch h
  · rcases of_decide_eq_true h with h | h
    · exact isRuntimeRead_iff.mpr (.inl h.1)
    · exact isRuntimeRead_iff.mpr (.inr h.1)

theorem Collected.collectRead {s : Planner} (h : P.Collected s) {i : ℕ} (hi : i ∈ P.ids) :
    P.Collected (P.collectRead i s) := by
  unfold RuntimeProgram.collectRead
  split
  next hraw =>
    have hread : P.IsRead i := ⟨hi, isRuntimeRead_of_isRawRead hraw⟩
    have hpatch (slot : ℕ) (keep : Bool) :
        ∀ patch ∈ s.patches ++ [⟨i, slot, keep⟩], P.IsRead patch.inst := by
      intro patch hpatch
      rcases mem_append.mp hpatch with hpatch | hpatch
      · exact h.patches patch hpatch
      · rw [mem_singleton.mp hpatch]
        exact hread
    split
    · split
      · exact ⟨hpatch _ _, h.reads⟩
      · refine ⟨hpatch _ _, fun read hmem => ?_⟩
        rcases mem_append.mp hmem with hmem | hmem
        · exact h.reads read hmem
        · rw [mem_singleton.mp hmem]
          exact ⟨i, rfl, hread⟩
    · split
      · exact h
      · exact ⟨h.patches, h.reads⟩
  · exact h

theorem ends_runEach {α : Type} {f : α → Planning Unit} {l : List α}
    (h : ∀ a ∈ l, Ends P.Collected (f a) (fun _ => P.Collected) fun _ => True) :
    Ends P.Collected (runEach f l) (fun _ => P.Collected) fun _ => True :=
  (runEach (D := fun _ _ => True)
    fun a ha => (h a ha).imp (fun _ hs => hs) (fun _ _ hs => ⟨trivial, hs⟩) fun _ he => he).imp
      (fun _ hs => hs) (fun _ _ hs => hs.2) fun _ he => he

/-- **`Collect`** goes from one collected state to another. -/
theorem collect_ends (h : P.Attached) {fuel pc : ℕ} {value : Value}
    (hvalue : P.ValueAttached value) :
    Ends P.Collected (P.collect fuel pc value) (fun _ => P.Collected) fun _ => True := by
  induction fuel generalizing value with
  | zero => exact throw trivial
  | succ fuel ih =>
    unfold collect
    split
    next i hi =>
      have hid : i ∈ P.ids := h.resolve hvalue i hi
      refine get_bind fun s hs => ?_
      refine ite (fun _ => ?_) fun _ => ?_
      · exact ite (fun _ => pure fun s' hs' => hs' ▸ hs) fun _ => throw trivial
      refine ite (fun _ => pure fun s' hs' => hs' ▸ hs) fun _ => ?_
      refine bind (modified (Q := fun _ => P.Collected) fun s' hs' => ?_) fun _ => ?_
      · subst hs'
        exact ⟨hs.patches, hs.reads⟩
      refine bind (ends_runEach fun arg harg => ih fun y hy => ?_) fun _ => ?_
      · exact h i hid y (hy ▸ harg)
      · refine modified fun s hs => ?_
        have hs' : P.Collected { s with
            visiting := s.visiting.dropLast, visited := s.visited ++ [i] } :=
          ⟨hs.patches, hs.reads⟩
        exact hs'.collectRead hid
    · exact pure fun s hs => hs

theorem collectReads_ends (h : P.Attached) :
    Ends P.Collected P.collectReads (fun _ => P.Collected) fun _ => True := by
  refine bind (ends_runEach fun i hi => ?_) fun _ => bind (ends_runEach fun i hi => ?_)
    fun _ => pure fun s hs => hs
  · unfold planDescriptor
    refine ite (fun _ => throw trivial) fun _ => ?_
    refine ite (fun _ => ?_) fun _ => pure fun s hs => hs
    refine bind (ends_runEach fun arg harg => collect_ends h fun y hy => ?_) fun _ =>
      pure fun s hs => hs
    exact h i hi y (hy ▸ harg)
  · unfold planAddress
    refine get_bind fun s hs => ?_
    refine ite (fun _ => ?_) fun _ => pure fun s' hs' => hs' ▸ hs
    refine (collect_ends h fun y hy => ?_).imp (fun s' hs' => hs' ▸ hs) (fun _ _ hs => hs)
      fun _ he => he
    exact inst.inj hy ▸ hi

end Collected

/-! ## What patching keeps -/

section Patched

variable {P} {types : ℕ → IRType} {patch : Patch} {n : ℕ}

theorem lt_freshId (h : n ∈ P.ids) : n < P.freshId := by
  have hle : ∀ l : List ℕ, n ∈ l → n ≤ l.foldr max 0 := by
    intro l hl
    induction l with
    | nil => nomatch hl
    | cons a l ih =>
      rw [foldr_cons]
      rcases mem_cons.mp hl with rfl | hl
      · exact Nat.le_max_left _ _
      · exact le_trans (ih hl) (Nat.le_max_right _ _)
  exact Nat.lt_succ_of_le (hle _ h)

theorem patchRead_ids : (P.patchRead patch).ids = (P.blocks.map (P.patchBlock patch)).flatten := rfl

theorem mem_patchBlock {block : List ℕ} (h : n ∈ block) : n ∈ P.patchBlock patch block := by
  unfold patchBlock
  split
  · refine mem_append_left _ (mem_flatMap.mpr ⟨n, h, ?_⟩)
    split <;> simp
  · exact h

theorem mem_ids_of_mem (h : n ∈ P.ids) : n ∈ (P.patchRead patch).ids := by
  obtain ⟨block, hblock, hn⟩ := mem_flatten.mp h
  rw [patchRead_ids]
  exact mem_flatten.mpr ⟨_, mem_map_of_mem hblock, mem_patchBlock hn⟩

theorem fresh_mem_ids (h : patch.inst ∈ P.ids) :
    P.freshId ∈ (P.patchRead patch).ids ∧ P.freshId + 1 ∈ (P.patchRead patch).ids := by
  obtain ⟨block, hblock, hn⟩ := mem_flatten.mp h
  have hnew {m : ℕ} (hm : m ∈ [P.freshId, P.freshId + 1, patch.inst]) :
      m ∈ (P.patchRead patch).ids := by
    rw [patchRead_ids]
    refine mem_flatten.mpr ⟨_, mem_map_of_mem hblock, ?_⟩
    unfold patchBlock
    rw [if_pos hn]
    refine mem_append_left _ (mem_flatMap.mpr ⟨patch.inst, hn, ?_⟩)
    rw [if_pos rfl]
    exact hm
  exact ⟨hnew (by simp), hnew (by simp)⟩

theorem mem_ids_cases (h : n ∈ (P.patchRead patch).ids) :
    n ∈ P.ids ∨ n = P.freshId ∨ n = P.freshId + 1 ∨ n = P.freshId + 2 := by
  rw [patchRead_ids] at h
  obtain ⟨block', hblock', hn⟩ := mem_flatten.mp h
  obtain ⟨block, hblock, rfl⟩ := mem_map.mp hblock'
  have hold (hn : n ∈ block) : n ∈ P.ids := mem_flatten.mpr ⟨block, hblock, hn⟩
  unfold patchBlock at hn
  split at hn
  · rcases mem_append.mp hn with hn | hn
    · obtain ⟨m, hm, hn⟩ := mem_flatMap.mp hn
      split at hn
      · simp only [mem_cons, not_mem_nil, or_false] at hn
        rcases hn with hn | hn | hn
        · exact .inr (.inl hn)
        · exact .inr (.inr (.inl hn))
        · exact .inl (hold (hn ▸ hm))
      · exact .inl (hold (mem_singleton.mp hn ▸ hm))
    · split at hn
      · exact .inr (.inr (.inr (mem_singleton.mp hn)))
      · nomatch hn
  · exact .inl (hold hn)

theorem patchInst_of_lt (h : n < P.freshId) :
    (P.patchRead patch).insts n =
      { P.insts n with
        args := (P.insts n).args.map fun arg =>
          if arg = .inst patch.inst then .inst (P.freshId + 1) else arg } := by
  change P.patchInst patch n = _
  unfold patchInst
  rw [if_neg (by omega), if_neg (by omega), if_neg (by omega)]

theorem patchInst_fresh :
    (P.patchRead patch).insts P.freshId = { opcode := .getSrtResource, args := [] } := by
  change P.patchInst patch P.freshId = _
  unfold patchInst
  rw [if_pos rfl]

theorem patchInst_flat :
    (P.patchRead patch).insts (P.freshId + 1) =
      { opcode := .readConst
        args := [.inst P.freshId, .u32 (.ofNat 32 patch.slot)] } := by
  change P.patchInst patch (P.freshId + 1) = _
  unfold patchInst
  rw [if_neg (by omega), if_pos rfl]

theorem patchInst_reference :
    (P.patchRead patch).insts (P.freshId + 2) =
      { opcode := .referenceU32, args := [.inst patch.inst] } := by
  change P.patchInst patch (P.freshId + 2) = _
  unfold patchInst
  rw [if_neg (by omega), if_neg (by omega), if_pos rfl]

/-- The types of the instructions after a patch. -/
def patchTypes (P : RuntimeProgram) (types : ℕ → IRType) (n : ℕ) : IRType :=
  if n = P.freshId then .other 65536
  else if n = P.freshId + 1 then .u32
  else if n = P.freshId + 2 then .void
  else types n

theorem patchTypes_of_lt (h : n < P.freshId) : P.patchTypes types n = types n := by
  unfold patchTypes
  rw [if_neg (by omega), if_neg (by omega), if_neg (by omega)]

theorem patchTypes_fresh : P.patchTypes types P.freshId = .other 65536 := if_pos rfl

theorem patchTypes_flat : P.patchTypes types (P.freshId + 1) = .u32 := by
  unfold patchTypes
  rw [if_neg (by omega), if_pos rfl]

theorem patchTypes_reference : P.patchTypes types (P.freshId + 2) = .void := by
  unfold patchTypes
  rw [if_neg (by omega), if_neg (by omega), if_pos rfl]

theorem patched_type (htype : types patch.inst = .u32) {arg : Value} (harg : P.ValueAttached arg) :
    valueType (P.patchTypes types)
      (if arg = .inst patch.inst then .inst (P.freshId + 1) else arg) =
        valueType types arg := by
  split
  next h =>
    rw [h]
    exact patchTypes_flat.trans htype.symm
  · cases arg with
    | inst y => exact patchTypes_of_lt (lt_freshId (harg y rfl))
    | _ => rfl

theorem Typed.patched_args (h : P.Typed types) (htype : types patch.inst = .u32) (hn : n ∈ P.ids) :
    ((P.patchRead patch).insts n).args.map (valueType (P.patchTypes types)) =
      (P.insts n).args.map (valueType types) := by
  rw [patchInst_of_lt (lt_freshId hn), map_map]
  exact map_congr_left fun arg harg =>
    patched_type htype fun y hy => h.attached n hn y (hy ▸ harg)

theorem Typed.patchRead (h : P.Typed types) (hinst : patch.inst ∈ P.ids)
    (htype : types patch.inst = .u32) : (P.patchRead patch).Typed (P.patchTypes types) where
  attached n hn y hy := by
    rcases mem_ids_cases hn with hn | rfl | rfl | rfl
    · rw [patchInst_of_lt (lt_freshId hn)] at hy
      obtain ⟨arg, harg, hy⟩ := mem_map.mp hy
      split at hy
      · exact inst.inj hy ▸ (fresh_mem_ids hinst).2
      · exact mem_ids_of_mem (h.attached n hn y (hy ▸ harg))
    · rw [patchInst_fresh] at hy
      nomatch hy
    · rw [patchInst_flat] at hy
      rcases mem_pair.mp hy with hy | hy
      · exact inst.inj hy ▸ (fresh_mem_ids hinst).1
      · nomatch hy
    · rw [patchInst_reference] at hy
      exact inst.inj (mem_singleton.mp hy) ▸ mem_ids_of_mem hinst
  inst n hn hphi hidentity := by
    rcases mem_ids_cases hn with hn | rfl | rfl | rfl
    · have hopcode : ((P.patchRead patch).insts n).opcode = (P.insts n).opcode := by
        rw [patchInst_of_lt (lt_freshId hn)]
      rw [hopcode] at hphi hidentity ⊢
      obtain ⟨hresult, hargs⟩ := h.inst n hn hphi hidentity
      rw [patchTypes_of_lt (lt_freshId hn), h.patched_args htype hn]
      exact ⟨hresult, hargs⟩
    · rw [patchInst_fresh]
      refine ⟨patchTypes_fresh, fun arg_types harg_types => ?_⟩
      exact absurd harg_types (by rw [show runtimeArgTypes .getSrtResource = none from rfl]; simp)
    · rw [patchInst_flat]
      refine ⟨patchTypes_flat, fun arg_types harg_types => ?_⟩
      rw [← Option.some.inj harg_types]
      change [P.patchTypes types P.freshId, .u32] = _
      rw [patchTypes_fresh]
    · rw [patchInst_reference]
      refine ⟨patchTypes_reference, fun arg_types harg_types => ?_⟩
      rw [← Option.some.inj harg_types]
      change [P.patchTypes types patch.inst] = _
      rw [patchTypes_of_lt (lt_freshId hinst), htype]
  phi n hn hphi := by
    rcases mem_ids_cases hn with hn | rfl | rfl | rfl
    · have hlt := lt_freshId hn
      have hopcode : ((P.patchRead patch).insts n).opcode = (P.insts n).opcode := by
        rw [patchInst_of_lt hlt]
      obtain ⟨hresult, hargs⟩ := h.phi n hn (hopcode ▸ hphi)
      have hflags : (P.patchRead patch).flags n = P.flags n := if_neg (by omega)
      rw [patchTypes_of_lt hlt, hflags]
      refine ⟨hresult, fun arg harg => ?_⟩
      rw [patchInst_of_lt hlt] at harg
      obtain ⟨arg, harg', rfl⟩ := mem_map.mp harg
      rw [patched_type htype fun y hy => h.attached n hn y (hy ▸ harg')]
      exact hargs arg harg'
    · rw [patchInst_fresh] at hphi
      nomatch hphi
    · rw [patchInst_flat] at hphi
      nomatch hphi
    · rw [patchInst_reference] at hphi
      nomatch hphi
  identity n hn hidentity := by
    rcases mem_ids_cases hn with hn | rfl | rfl | rfl
    · have hlt := lt_freshId hn
      have hopcode : ((P.patchRead patch).insts n).opcode = (P.insts n).opcode := by
        rw [patchInst_of_lt hlt]
      obtain ⟨value, hargs, hresult⟩ := h.identity n hn (hopcode ▸ hidentity)
      rw [patchTypes_of_lt hlt, patchInst_of_lt hlt]
      refine ⟨_, by rw [hargs]; rfl, ?_⟩
      rw [patched_type htype fun y hy => h.attached n hn y (by rw [hargs, hy]; simp)]
      exact hresult
    · rw [patchInst_fresh] at hidentity
      nomatch hidentity
    · rw [patchInst_flat] at hidentity
      nomatch hidentity
    · rw [patchInst_reference] at hidentity
      nomatch hidentity

/-- What all patches keep. -/
structure Planned (P P' : RuntimeProgram) : Prop where
  ids : ∀ n ∈ P.ids, n ∈ P'.ids
  opcode : ∀ n ∈ P.ids, (P'.insts n).opcode = (P.insts n).opcode
  srt_reads : P'.srt_reads = P.srt_reads
  typed : ∀ types, P.Typed types → ∃ types', P'.Typed types'

theorem Typed.read_type (h : P.Typed types) (hread : P.IsRead n) : types n = .u32 := by
  obtain ⟨hn, hread⟩ := hread
  rcases isRuntimeRead_iff.mp hread with hopcode | hopcode
  · rw [(h.inst n hn (by rw [hopcode]; decide) (by rw [hopcode]; decide)).1, hopcode]
    rfl
  · rw [(h.inst n hn (by rw [hopcode]; decide) (by rw [hopcode]; decide)).1, hopcode]
    rfl

theorem planned_patchRead (hread : P.IsRead patch.inst) : P.Planned (P.patchRead patch) where
  ids n hn := mem_ids_of_mem hn
  opcode n hn := by rw [patchInst_of_lt (lt_freshId hn)]
  srt_reads := rfl
  typed types h := ⟨_, h.patchRead hread.1 (h.read_type hread)⟩

theorem Planned.isRead {P' : RuntimeProgram} (h : P.Planned P') (hread : P.IsRead n) : P'.IsRead n :=
  ⟨h.ids n hread.1, by rw [h.opcode n hread.1]; exact hread.2⟩

theorem Planned.trans {P' P'' : RuntimeProgram} (h : P.Planned P') (h' : P'.Planned P'') :
    P.Planned P'' where
  ids n hn := h'.ids n (h.ids n hn)
  opcode n hn := (h'.opcode n (h.ids n hn)).trans (h.opcode n hn)
  srt_reads := h'.srt_reads.trans h.srt_reads
  typed types ht := by
    obtain ⟨types', ht'⟩ := h.typed types ht
    exact h'.typed types' ht'

theorem planned_patches {patches : List Patch} (hpatches : ∀ patch ∈ patches, P.IsRead patch.inst) :
    P.Planned (patches.foldl patchRead P) := by
  induction patches generalizing P with
  | nil => exact ⟨fun _ hn => hn, fun _ _ => rfl, rfl, fun types h => ⟨types, h⟩⟩
  | cons patch patches ih =>
    obtain ⟨hpatch, hpatches⟩ := forall_mem_cons.mp hpatches
    have hplanned := planned_patchRead hpatch
    exact hplanned.trans (ih fun patch hmem => hplanned.isRead (hpatches patch hmem))

/-- The slots of the plan hold raw reads of the program. -/
def SlotsRead (P : RuntimeProgram) : Prop :=
  ∀ read ∈ P.srt_reads, ∃ i, read.value = .inst i ∧ P.IsRead i

theorem SlotsRead.attached (h : P.SlotsRead) : P.ReadsAttached := by
  intro read hread y hy
  obtain ⟨i, hi, hisread⟩ := h read hread
  exact inst.inj (hi.symm.trans hy) ▸ hisread.1

/-- **`BuildSrtPlan` keeps the types, and its slots hold reads of the program.** -/
theorem buildSrtPlan_planned {P' : RuntimeProgram} (h : P.Typed types)
    (hplan : P.buildSrtPlan = .ok P') : (∃ types', P'.Typed types') ∧ P'.SlotsRead := by
  unfold buildSrtPlan at hplan
  have hends := collectReads_ends h.attached {} ⟨fun _ hp => (nomatch hp), fun _ hr => (nomatch hr)⟩
  cases hcollect : P.collectReads {} with
  | error e =>
    rw [hcollect] at hplan
    nomatch hplan
  | ok result =>
    rw [hcollect] at hplan hends
    obtain ⟨_, s⟩ := result
    have hcollected : P.Collected s := hends
    let start : RuntimeProgram :=
      { P with srt_reads := s.srt_reads, dynamic_reads := s.dynamic_reads }
    have hplanned : start.Planned P' :=
      Except.ok.inj hplan ▸ planned_patches (P := start) hcollected.patches
    refine ⟨hplanned.typed types ⟨h.attached, h.inst, h.phi, h.identity⟩, fun read hread => ?_⟩
    rw [hplanned.srt_reads] at hread
    obtain ⟨i, hi, hisread⟩ := hcollected.reads read hread
    exact ⟨i, hi, hplanned.isRead hisread⟩

end Patched

end RuntimeProgram

end MagnusPS5.Shader
