/-
What the evaluator asks for (`SrtWalker.cpp`).

The evaluator treats each instruction in the same way: it evaluates certain values, in
order, and computes the result from theirs. `recipe` says which values these are, which
evaluator they are left to, and what the result is. They do not depend on the user data
and the memory; only the result does. `evaluateInst_ends` derives the outcome of
`EvaluateInst` from that of these values.
-/
import MagnusPS5.Shader.RuntimeValues

namespace MagnusPS5.Shader

open Lib List.Forall₂ Ends List

/-- The values that an instruction asks for, and its result from theirs. -/
structure Recipe where
  operands : List Value
  result : SrtRuntime → Bool → List (BitVec 64) → Except EvalError (BitVec 64)

namespace Recipe

/-- No value is asked for. -/
def const (result : SrtRuntime → Except EvalError (BitVec 64)) : Recipe :=
  ⟨[], fun R _ _ => result R⟩

def fail (e : EvalError) : Recipe := const fun _ => .error e

/-- The value of another value. -/
def copy (value : Value) : Recipe :=
  ⟨[value], fun _ _ args => match args with
    | [a] => .ok a
    | _ => .error .unfinished⟩

def ofOp (op : RuntimeOp) (operands : List Value) : Recipe :=
  ⟨operands, fun _ _ args => op.apply args⟩

end Recipe

namespace RuntimeProgram

variable (P : RuntimeProgram)

section Recipes

variable (i : ℕ)

def userDataRecipe : Recipe :=
  match P.instArg i 0 with
  | .scalarReg reg => .const fun R =>
    match if P.user_data_base ≤ reg then R.user_data[reg - P.user_data_base]? else none with
    | some word => .ok (word.setWidth 64)
    | none => .error (.unavailableSgpr reg)
  | _ => .fail .noRegister

def componentRecipe (component source : ℕ) : Recipe :=
  match (P.insts source).opcode with
  | .compositeConstructU32x2 => .copy (P.instArg source component)
  | .unpackUint2x32 =>
    .ofOp (.unary fun packed => low32 (packed >>> (component * 32))) [P.instArg source 0]
  | .iAddCarry32 =>
    .ofOp
      (.binary fun lhs rhs =>
        if component = 0 then low32 (low32 lhs + low32 rhs)
        else low32 ((low32 lhs + low32 rhs) >>> 32))
      [P.instArg source 0, P.instArg source 1]
  | _ => .fail .composite

def extractRecipe : Recipe :=
  match P.extractComponent i with
  | none => .fail .dynamicExtract
  | some component =>
    match P.definition (P.instArg i 0) with
    | none => .fail .composite
    | some source =>
      if 2 ≤ component then .fail .composite else P.componentRecipe component source

def packRecipe : Recipe :=
  match P.definition (P.instArg i 0) with
  | none => .fail .packed
  | some pair =>
    if (P.insts pair).opcode ≠ .compositeConstructU32x2 then .fail .packed
    else
      .ofOp (.binary fun a b => low32 a ||| (low32 b <<< 32))
        [P.instArg pair 0, P.instArg pair 1]

def readConstRecipe : Recipe :=
  match P.srtSlot i with
  | some read => .copy read.value
  | none => .fail .invalidSlot

def rawReadRecipe : Recipe :=
  match P.memory_info[P.memoryIndex i]? with
  | none => .fail .invalidMetadata
  | some info =>
    match P.definition (P.instArg i 0) with
    | none => .fail .noHandle
    | some handle =>
      let words := [P.instArg handle 0, P.instArg handle 1, P.instArg i 1]
      if (P.insts i).opcode ≠ .readConstBuffer then
        ⟨words, fun R clean args =>
          match args with
          | [low, high, offset] => do
              R.readWord clean (← rawAddress info.offset low high offset)
          | _ => .error .unfinished⟩
      else if (P.insts handle).args.length ≠ 4 then ⟨words, fun _ _ _ => .error .bufferWidth⟩
      else
        ⟨words ++ [P.instArg handle 2, P.instArg handle 3], fun R clean args =>
          match args with
          | [low, high, offset, records, _] => do
              R.readWord clean (← rawBufferAddress info.offset low high offset records)
          | _ => .error .unfinished⟩

/-- What `EvaluateInst` asks for, and what it makes of it. -/
def recipe : Recipe :=
  let opcode := (P.insts i).opcode
  if opcode = .getUserData then P.userDataRecipe i
  else if opcode = .getShaderBase then .const fun R => .ok R.shader_base
  else if opcode = .phi then
    if P.resolveInvariantPhi (.inst i) = .empty then .fail .dependentPhi
    else .copy (P.resolveInvariantPhi (.inst i))
  else if opcode = .compositeExtractU32x2 then P.extractRecipe i
  else if opcode = .packUint2x32 then P.packRecipe i
  else if opcode = .readConst then P.readConstRecipe i
  else if isRuntimeRead opcode then
    if P.isRawRead i then P.rawReadRecipe i else .fail (.unsupported opcode)
  else if opcode.isUndef then .fail .undefined
  else
    match runtimeOp opcode with
    | none => .fail (.unsupported opcode)
    | some op => .ofOp op ((List.range op.arity).map (P.instArg i))

/-- The evaluator that the values are left to. -/
def evaluatorFor (clean_flat_slots : List Bool) (clean : Bool) : Bool :=
  match P.resolve (P.instArg i 1) with
  | .u32 slot =>
    clean || (decide ((P.insts i).opcode = .readConst) && clean_flat_slots.getD slot.toNat false)
  | _ => clean

end Recipes

/-! ## The outcome of `EvaluateInst` -/

section Outcomes

variable {P} {R : SrtRuntime} {clean_flat_slots : List Bool}
  {evaluate : Bool → Value → Eval (BitVec 64)}
variable {I : Evaluators → Prop} {E : EvalError → Prop} {D : Value → BitVec 64 → Prop}
  {c clean : Bool} {i : ℕ} {r : Recipe} {x : Eval (BitVec 64)}

/-- The computation goes after a recipe: where evaluator `c` keeps `I` and finds values in `D`
for its operands, the result is the one of the recipe for such values, and the errors are
those of the operands and of the result. -/
def Follows (I : Evaluators → Prop) (E : EvalError → Prop) (D : Value → BitVec 64 → Prop)
    (R : SrtRuntime) (clean : Bool) (evaluate : Value → Eval (BitVec 64)) (r : Recipe)
    (x : Eval (BitVec 64)) : Prop :=
  (∀ w ∈ r.operands, Ends I (evaluate w) (fun a s => D w a ∧ I s) E) →
  (∀ args, List.Forall₂ D r.operands args → ∀ e, r.result R clean args = .error e → E e) →
  Ends I x (fun a s =>
    (∃ args, List.Forall₂ D r.operands args ∧ r.result R clean args = .ok a) ∧ I s) E

theorem ends_lift {x : Except EvalError (BitVec 64)} {Q : BitVec 64 → Evaluators → Prop}
    (hok : ∀ a, x = .ok a → ∀ s, I s → Q a s) (herror : ∀ e, x = .error e → E e) :
    Ends I (liftM x : Eval (BitVec 64)) Q E := by
  intro s hs
  cases hx : x with
  | ok a => exact hok a hx s hs
  | error e => exact herror e hx

theorem ends_keep {α : Type} {w : Value} {f : BitVec 64 → Eval α}
    {Q : α → Evaluators → Prop} (hx : Ends I x (fun a s => D w a ∧ I s) E)
    (hf : ∀ a, D w a → Ends I (f a) Q E) : Ends I (x >>= f) Q E := by
  refine bind hx fun a => ?_
  rintro s ⟨ha, hs⟩
  exact hf a ha s hs

theorem Follows.fail (e : EvalError) : Follows I E D R clean (evaluate c) (.fail e) (throw e) :=
  fun _ h => throw (h [] nil e rfl)

theorem Follows.const {result : SrtRuntime → Except EvalError (BitVec 64)}
    (hx : x = liftM (result R)) : Follows I E D R clean (evaluate c) (.const result) x := by
  intro _ h
  rw [hx]
  exact ends_lift (fun a ha s hs => ⟨⟨[], nil, ha⟩, hs⟩) fun e he => h [] nil e he

theorem Follows.copy (value : Value) :
    Follows I E D R clean (evaluate c) (.copy value) (evaluate c value) := by
  intro hoperands _
  refine (hoperands value mem_cons_self).imp (fun _ h => h) ?_ fun _ h => h
  rintro a s ⟨ha, hs⟩
  exact ⟨⟨[a], cons ha nil, rfl⟩, hs⟩

theorem Follows.each (r : Recipe) :
    Follows I E D R clean (evaluate c) r (do
      let args ← runEach (evaluate c) r.operands
      liftM (r.result R clean args)) := by
  intro hoperands h
  refine bind (runEach hoperands) fun args => ?_
  rintro s ⟨hargs, hs⟩
  exact ends_lift (fun a ha s hs => ⟨⟨args, hargs, ha⟩, hs⟩) (fun e he => h args hargs e he) s hs

theorem Follows.unary (f : BitVec 64 → BitVec 64) (w : Value) :
    Follows I E D R clean (evaluate c) (.ofOp (.unary f) [w]) (do
      let a ← evaluate c w
      pure (f a)) := by
  intro hoperands _
  refine ends_keep (hoperands w mem_cons_self) fun a ha => ?_
  exact pure fun s hs => ⟨⟨[a], cons ha nil, rfl⟩, hs⟩

theorem Follows.binary (f : BitVec 64 → BitVec 64 → BitVec 64) (v w : Value) :
    Follows I E D R clean (evaluate c) (.ofOp (.binary f) [v, w]) (do
      let a ← evaluate c v
      let b ← evaluate c w
      pure (f a b)) := by
  intro hoperands _
  refine ends_keep (hoperands v mem_cons_self) fun a ha => ?_
  refine ends_keep (hoperands w (mem_cons_of_mem _ mem_cons_self)) fun b hb => ?_
  exact pure fun s hs =>
    ⟨⟨[a, b], cons ha (cons hb nil), rfl⟩, hs⟩

theorem Follows.mapError (wrap : EvalError → EvalError) (hwrap : ∀ e, E e → E (wrap e))
    (h : Follows I E D R clean (evaluate c) r x) :
    Follows I E D R clean (evaluate c) r (mapError wrap x) :=
  fun hoperands hresult => (h hoperands hresult).mapError hwrap

theorem evaluateUserData_follows :
    Follows I E D R clean (evaluate c) (P.userDataRecipe i) (P.evaluateUserData R i) := by
  unfold evaluateUserData userDataRecipe
  cases P.instArg i 0 with
  | scalarReg reg =>
    refine .const ?_
    dsimp only
    generalize (if P.user_data_base ≤ reg then R.user_data[reg - P.user_data_base]? else none) =
      word
    cases word with
    | some | none => rfl
  | _ => exact .fail _

theorem evaluateComponent_follows {component source : ℕ} :
    Follows I E D R clean (evaluate c) (P.componentRecipe component source)
      (P.evaluateComponent evaluate c component source) := by
  unfold evaluateComponent componentRecipe
  cases (P.insts source).opcode with
  | compositeConstructU32x2 => exact .copy _
  | unpackUint2x32 => exact .unary (fun packed => low32 (packed >>> (component * 32))) _
  | iAddCarry32 =>
    exact .binary (fun lhs rhs =>
      if component = 0 then low32 (low32 lhs + low32 rhs)
      else low32 ((low32 lhs + low32 rhs) >>> 32)) _ _
  | _ => exact .fail _

theorem evaluateExtract_follows :
    Follows I E D R clean (evaluate c) (P.extractRecipe i) (P.evaluateExtract evaluate c i) := by
  unfold evaluateExtract extractRecipe
  cases P.extractComponent i with
  | none => exact .fail _
  | some component =>
    cases P.definition (P.instArg i 0) with
    | none => exact .fail _
    | some source =>
      dsimp only
      split
      · exact .fail _
      · exact evaluateComponent_follows

theorem evaluatePack_follows (hwrap : ∀ e, E e → E (.packedHalf e)) :
    Follows I E D R clean (evaluate c) (P.packRecipe i) (P.evaluatePack evaluate c i) := by
  unfold evaluatePack packRecipe
  cases P.definition (P.instArg i 0) with
  | none => exact .fail _
  | some pair =>
    dsimp only
    split
    · exact .fail _
    · exact .mapError .packedHalf hwrap (.binary (fun a b => low32 a ||| (low32 b <<< 32)) _ _)

theorem evaluateRawAddress_ends {info : MemoryInfo} {handle : ℕ}
    (hinfo : P.memory_info[P.memoryIndex i]? = some info)
    (hhandle : P.definition (P.instArg i 0) = some handle)
    (hoperands : ∀ w ∈ (P.rawReadRecipe i).operands,
      Ends I (evaluate c w) (fun a s => D w a ∧ I s) E)
    (hresult : ∀ args, List.Forall₂ D (P.rawReadRecipe i).operands args →
      ∀ e, (P.rawReadRecipe i).result R clean args = .error e → E e)
    (hwrap : ∀ e, E e → E (.bufferWord e)) :
    Ends I (P.evaluateRawAddress evaluate c i info.offset handle) (fun address s =>
      (∃ args, List.Forall₂ D (P.rawReadRecipe i).operands args ∧
        (P.rawReadRecipe i).result R clean args = R.readWord clean address) ∧ I s) E := by
  unfold rawReadRecipe at hoperands hresult ⊢
  rw [hinfo, hhandle] at hoperands hresult ⊢
  unfold evaluateRawAddress
  by_cases hbuffer : (P.insts i).opcode = .readConstBuffer
  · by_cases hwidth : (P.insts handle).args.length = 4
    · simp only [hbuffer, hwidth, ne_eq, not_true_eq_false, if_true, if_false, cons_append,
        nil_append, forall_mem_cons] at hoperands hresult ⊢
      obtain ⟨hlow, hhigh, hoffset, hrecords, hlast, _⟩ := hoperands
      refine ends_keep hlow fun low hlow => ends_keep hhigh fun high hhigh => ?_
      refine ends_keep hoffset fun offset hoffset => ?_
      have hwords : Ends I (P.evaluateRecords evaluate c handle) (fun records s =>
          (∃ last, D (P.instArg handle 2) records ∧ D (P.instArg handle 3) last) ∧ I s) E := by
        unfold evaluateRecords
        rw [if_neg (not_not.mpr hwidth)]
        refine mapError (ends_keep hrecords fun records hrecords => ?_) hwrap
        exact ends_keep hlast fun last hlast =>
          pure fun s hs => ⟨⟨last, hrecords, hlast⟩, hs⟩
      refine bind hwords fun records => ?_
      rintro s ⟨⟨last, hrecords, hlast⟩, hs⟩
      have hargs := cons hlow (.cons hhigh (.cons hoffset (.cons hrecords (.cons hlast .nil))))
      refine ends_lift (fun address haddress s hs => ?_) (fun e he => ?_) s hs
      · exact ⟨⟨_, hargs, by dsimp only; rw [haddress]; rfl⟩, hs⟩
      · exact hresult _ hargs e (by dsimp only; rw [he]; rfl)
    · simp only [hbuffer, hwidth, ne_eq, not_true_eq_false, not_false_eq_true, if_true, if_false,
        forall_mem_cons] at hoperands hresult ⊢
      obtain ⟨hlow, hhigh, hoffset, _⟩ := hoperands
      refine ends_keep hlow fun low hlow => ends_keep hhigh fun high hhigh => ?_
      refine ends_keep hoffset fun offset hoffset => ?_
      unfold evaluateRecords
      rw [if_pos hwidth]
      have hargs := cons hlow (.cons hhigh (.cons hoffset .nil))
      exact fun s hs => hresult _ hargs _ rfl
  · simp only [hbuffer, ne_eq, not_false_eq_true, if_true, if_false, forall_mem_cons]
      at hoperands hresult ⊢
    obtain ⟨hlow, hhigh, hoffset, _⟩ := hoperands
    refine ends_keep hlow fun low hlow => ends_keep hhigh fun high hhigh => ?_
    refine ends_keep hoffset fun offset hoffset => ?_
    have hargs := cons hlow (.cons hhigh (.cons hoffset .nil))
    refine ends_lift (fun address haddress s hs => ?_) fun e he => ?_
    · exact ⟨⟨_, hargs, by dsimp only; rw [haddress]; rfl⟩, hs⟩
    · exact hresult _ hargs e (by dsimp only; rw [he]; rfl)

theorem evaluateRawRead_follows (hwrap : ∀ e, E e → E (.bufferWord e)) :
    Follows I E D R c (evaluate c) (P.rawReadRecipe i) (P.evaluateRawRead R evaluate c i) := by
  unfold evaluateRawRead
  cases hinfo : P.memory_info[P.memoryIndex i]? with
  | none =>
    unfold rawReadRecipe
    rw [hinfo]
    exact .fail _
  | some info =>
    cases hhandle : P.definition (P.instArg i 0) with
    | none =>
      unfold rawReadRecipe
      rw [hinfo, hhandle]
      exact .fail _
    | some handle =>
      intro hoperands hresult
      refine bind (evaluateRawAddress_ends hinfo hhandle hoperands hresult hwrap) ?_
      rintro address s ⟨⟨args, hargs, hread⟩, hs⟩
      exact ends_lift (fun a ha s hs => ⟨⟨args, hargs, hread.trans ha⟩, hs⟩)
        (fun e he => hresult args hargs e (hread.trans he)) s hs

theorem evaluateReadConst_follows (hopcode : (P.insts i).opcode = .readConst) :
    Follows I E D R clean (evaluate (P.evaluatorFor i clean_flat_slots clean)) (P.readConstRecipe i)
      (P.evaluateReadConst clean_flat_slots evaluate clean i) := by
  unfold evaluateReadConst readConstRecipe srtSlot evaluatorFor
  cases P.resolve (P.instArg i 1) with
  | u32 slot =>
    dsimp only
    cases P.srt_reads[slot.toNat]? with
    | none => exact .fail _
    | some read =>
      simp only [hopcode, decide_true, Bool.true_and]
      cases clean <;> cases clean_flat_slots.getD slot.toNat false <;> exact .copy _
  | _ => exact .fail _

theorem evaluatorFor_eq (hopcode : (P.insts i).opcode ≠ .readConst) :
    P.evaluatorFor i clean_flat_slots clean = clean := by
  unfold evaluatorFor
  split
  · simp [hopcode]
  · rfl

/-- **`EvaluateInst` goes after the recipe of its instruction.** -/
theorem evaluateInst_follows (hwrap : ∀ e, E e → E (.packedHalf e) ∧ E (.bufferWord e)) :
    Follows I E D R clean (evaluate (P.evaluatorFor i clean_flat_slots clean)) (P.recipe i)
      (P.evaluateInst R clean_flat_slots evaluate clean i) := by
  unfold evaluateInst recipe
  by_cases hread : (P.insts i).opcode = .readConst
  · simp only [hread]
    exact evaluateReadConst_follows hread
  rw [evaluatorFor_eq hread]
  dsimp only
  split
  · exact evaluateUserData_follows
  split
  · exact .const rfl
  split
  · unfold evaluatePhi
    split
    · exact .fail _
    · exact .copy _
  split
  · exact evaluateExtract_follows
  split
  · exact evaluatePack_follows fun e he => (hwrap e he).1
  split
  · split
    · exact evaluateRawRead_follows fun e he => (hwrap e he).2
    · exact .fail _
  split
  · exact .fail _
  cases runtimeOp (P.insts i).opcode with
  | none => exact .fail _
  | some op => exact .each (.ofOp op _)

end Outcomes

end RuntimeProgram

end MagnusPS5.Shader
