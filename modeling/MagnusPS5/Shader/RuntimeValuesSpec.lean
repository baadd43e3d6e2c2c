/-
Which values can be evaluated (`SrtWalker.cpp`).

An evaluation always returns. It can only fail for what it finds at run time if all that
the value leads to can be evaluated: `Evaluable`. Validation shows this of a value up to
the flattened reads in it. A `ReadConst` is accepted with any slot of the plan, while its
evaluation goes on with the value in the slot; `BuildSrtPlan` has not validated this value,
nor that it leads to other slots than its own.
-/
import MagnusPS5.Shader.InvariantValues
import MagnusPS5.Shader.RuntimeRuns

namespace MagnusPS5.Shader

open Lib
open Except (error)
open Function (update)
open Recipe List RuntimeOp Option ValueProgram Function

/-! ## Errors -/

variable {e : EvalError} {F : EvalError → Prop} {op : RuntimeOp} {R : SrtRuntime} {clean : Bool}
  {immediate : BitVec 32} {Q : Value → Prop}

namespace EvalError

/-- A read of the guest's memory has been refused, or an index or a bit field is out of range. -/
def allowed : EvalError → Bool
  | packedHalf e | bufferWord e => e.allowed
  | negativeOffset | bufferRange _ _ | addressRange | readFailed _ | unavailableSgpr _
  | unsignedRange | signedRange | insertedRange => true
  | _ => false

/-- The evaluation has come to its end. -/
def finished : EvalError → Bool
  | packedHalf e | bufferWord e => e.finished
  | unfinished => false
  | _ => true

theorem finished_of_allowed (h : e.allowed = true) : e.finished = true := by
  induction e with
  | packedHalf _ ih | bufferWord _ ih => exact ih h
  | unfinished => exact h
  | _ => rfl

end EvalError

/-- The errors of a recipe, where it is given as many values as it asks for. -/
def Recipe.FailsIn (F : EvalError → Prop) (r : Recipe) : Prop :=
  ∀ R clean args, args.length = r.operands.length → ∀ e, r.result R clean args = .error e → F e

section FailsIn

variable {args : List (BitVec 64)}

theorem Recipe.failsIn_fail (h : F e) : (fail e).FailsIn F := by
  intro R clean args _ e' he
  exact error.inj he ▸ h

theorem Recipe.failsIn_copy (value : Value) : (copy value).FailsIn F := by
  intro R clean args hlength e he
  obtain ⟨a, rfl⟩ := length_eq_one_iff.mp hlength
  nomatch he

variable {a b c low high offset : BitVec 64}

theorem bitFieldUExtract_error (h : bitFieldUExtract a b c = .error e) : e.allowed = true := by
  unfold bitFieldUExtract at h
  dsimp only at h
  split at h
  · exact error.inj h ▸ rfl
  · split at h <;> nomatch h

theorem bitFieldSExtract_error (h : bitFieldSExtract a b c = .error e) : e.allowed = true := by
  unfold bitFieldSExtract at h
  dsimp only at h
  split at h
  · exact error.inj h ▸ rfl
  · split at h
    · nomatch h
    · split at h <;> nomatch h

theorem bitFieldInsert_error {d : BitVec 64} (h : bitFieldInsert a b c d = .error e) :
    e.allowed = true := by
  unfold bitFieldInsert at h
  dsimp only at h
  split at h
  · exact error.inj h ▸ rfl
  · split at h <;> nomatch h

/-- The bit fields are the operations that can fail. -/
def RuntimeOp.FailsAllowed : RuntimeOp → Prop
  | .unary _ | .binary _ => True
  | .ternary f => ∀ a b c e, f a b c = .error e → e.allowed = true
  | .quaternary f => ∀ a b c d e, f a b c d = .error e → e.allowed = true

theorem RuntimeOp.unary_failsAllowed (f : BitVec 64 → BitVec 64) : (unary f).FailsAllowed := trivial

theorem RuntimeOp.binary_failsAllowed (f : BitVec 64 → BitVec 64 → BitVec 64) :
    (binary f).FailsAllowed := trivial

/-- An operation has the allowed errors only. -/
theorem runtimeOp_failsAllowed {opcode : ValueOpcode}
    (h : runtimeOp opcode = some op) : op.FailsAllowed := by
  unfold runtimeOp at h
  split at h <;> cases h
  any_goals trivial
  · exact fun a b c e => bitFieldUExtract_error
  · exact fun a b c e => bitFieldSExtract_error
  · exact fun a b c d e => bitFieldInsert_error
  · exact fun a b c e h => nomatch h
  · exact fun a b c e h => nomatch h

theorem Recipe.failsIn_ofOp (hF : ∀ e, e.allowed = true → F e)
    (hop : op.FailsAllowed) {operands : List Value} (hlength : operands.length = op.arity) :
    (ofOp op operands).FailsIn F := by
  intro R clean args hargs e he
  have hargs : args.length = op.arity := hargs.trans hlength
  cases op with
  | unary f =>
    obtain ⟨a, rfl⟩ := length_eq_one_iff.mp hargs
    nomatch he
  | binary f =>
    obtain ⟨a, b, rfl⟩ := length_eq_two.mp hargs
    nomatch he
  | ternary f =>
    obtain ⟨a, b, c, rfl⟩ := length_eq_three.mp hargs
    exact hF e (hop a b c e he)
  | quaternary f =>
    match args, hargs with
    | [a, b, c, d], _ => exact hF e (hop a b c d e he)

theorem readWord_error {address : BitVec 64}
    (h : R.readWord clean address = .error e) : e.allowed = true := by
  unfold SrtRuntime.readWord at h
  split at h
  · nomatch h
  · split at h
    · nomatch h
    · exact error.inj h ▸ rfl

theorem rawAddress_error
    (h : rawAddress immediate low high offset = .error e) : e.allowed = true := by
  unfold rawAddress at h
  dsimp only at h
  split at h
  · nomatch h
  · exact error.inj h ▸ rfl

theorem rawBufferAddress_error {records : BitVec 64}
    (h : rawBufferAddress immediate low high offset records = .error e) : e.allowed = true := by
  unfold rawBufferAddress at h
  dsimp only at h
  split at h
  · exact error.inj h ▸ rfl
  -- the size is chosen by the stride
  · split at h <;> split at h
    · exact error.inj h ▸ rfl
    · nomatch h
    · exact error.inj h ▸ rfl
    · nomatch h

theorem read_error {address : Except EvalError (BitVec 64)}
    (haddress : ∀ e, address = .error e → e.allowed = true)
    (h : (address >>= fun a => R.readWord clean a) = .error e) : e.allowed = true := by
  cases address with
  | error e' => exact error.inj h ▸ haddress e' rfl
  | ok a => exact readWord_error h

end FailsIn

namespace RuntimeProgram

variable {P : RuntimeProgram} {i : ℕ}

theorem userDataRecipe_failsIn (hF : ∀ e, e.allowed = true → F e)
    (hreg : (∃ reg, P.instArg i 0 = .scalarReg reg) ∨ F .noRegister) :
    (P.userDataRecipe i).FailsIn F := by
  unfold userDataRecipe
  split
  · intro R clean args _ e he
    refine hF e ?_
    dsimp only [Recipe.const] at he
    split at he
    · nomatch he
    · exact error.inj he ▸ rfl
  next hne =>
    refine failsIn_fail ?_
    rcases hreg with ⟨reg, hreg⟩ | hF
    · exact absurd hreg (hne reg)
    · exact hF

theorem rawReadRecipe_failsIn (hF : ∀ e, e.allowed = true → F e)
    (hinfo : (P.memory_info[P.memoryIndex i]?).isSome ∨ F .invalidMetadata)
    (hhandle : (P.definition (P.instArg i 0)).isSome ∨ F .noHandle)
    (hwidth : (∀ handle, P.definition (P.instArg i 0) = some handle →
      (P.insts i).opcode = .readConstBuffer → (P.insts handle).args.length = 4) ∨ F .bufferWidth) :
    (P.rawReadRecipe i).FailsIn F := by
  unfold rawReadRecipe
  split
  next h =>
    exact failsIn_fail (hinfo.resolve_left (by simp [h]))
  split
  next h =>
    exact failsIn_fail (hhandle.resolve_left (by simp [h]))
  rename_i handle hdefinition
  split
  · intro R clean args hargs e he
    obtain ⟨low, high, offset, rfl⟩ := length_eq_three.mp hargs
    exact hF e (read_error (fun e => rawAddress_error) he)
  rename_i hbuffer
  split
  next hne =>
    intro R clean args _ e he
    refine error.inj he ▸ hwidth.resolve_left fun h => ?_
    exact hne (h handle hdefinition (not_not.mp hbuffer))
  · intro R clean args hargs e he
    match args, hargs with
    | [low, high, offset, records, last], _ =>
      exact hF e (read_error (fun e => rawBufferAddress_error) he)

theorem componentRecipe_failsIn {component source : ℕ}
    (hsource : (P.insts source).opcode = .compositeConstructU32x2 ∨
      (P.insts source).opcode = .unpackUint2x32 ∨ (P.insts source).opcode = .iAddCarry32 ∨
      F .composite) (hF : ∀ e, e.allowed = true → F e) :
    (P.componentRecipe component source).FailsIn F := by
  unfold componentRecipe
  split
  · exact failsIn_copy _
  · exact failsIn_ofOp hF (unary_failsAllowed _) rfl
  · exact failsIn_ofOp hF (binary_failsAllowed _) rfl
  next h1 h2 h3 =>
    exact failsIn_fail (((hsource.resolve_left h1).resolve_left h2).resolve_left h3)

/-- A recipe itself does not run out of fuel. -/
theorem recipe_finishes : (P.recipe i).FailsIn fun e => e.finished = true := by
  have hF (e : EvalError) (he : e.allowed = true) := EvalError.finished_of_allowed he
  unfold recipe
  dsimp only
  split
  · exact userDataRecipe_failsIn hF (.inr rfl)
  split
  · intro R clean args _ e he
    cases he
  split
  · split
    · exact failsIn_fail rfl
    · exact failsIn_copy _
  split
  · unfold extractRecipe
    split
    · exact failsIn_fail rfl
    split
    · exact failsIn_fail rfl
    split
    · exact failsIn_fail rfl
    · exact componentRecipe_failsIn (.inr (.inr (.inr rfl))) hF
  split
  · unfold packRecipe
    split
    · exact failsIn_fail rfl
    split
    · exact failsIn_fail rfl
    · exact failsIn_ofOp hF (binary_failsAllowed _) rfl
  split
  · unfold readConstRecipe
    split
    · exact failsIn_copy _
    · exact failsIn_fail rfl
  split
  · split
    · exact rawReadRecipe_failsIn hF (.inr rfl) (.inr rfl) (.inr rfl)
    · exact failsIn_fail rfl
  split
  · exact failsIn_fail rfl
  split
  · exact failsIn_fail rfl
  next op hop =>
    exact failsIn_ofOp hF (runtimeOp_failsAllowed hop) (by simp)

/-! ## Every evaluation returns -/

/-- A value of the program, evaluators that are in different instructions of it, and fuel for
the instructions that are left: those of the evaluator at work and, if this is not the clean
one, those of the clean one. -/
structure Fuelled (P : RuntimeProgram) (fuel : ℕ) (visiting : Bool → List ℕ) (clean : Bool)
    (value : Value) : Prop where
  attached : P.ValueAttached value
  nodup : ∀ c, (visiting c).Nodup
  mem : ∀ c, ∀ y ∈ visiting c, y ∈ P.ids
  fuel : (if clean then 0 else P.ids.length + 1 - (visiting false).length) + P.ids.length <
    fuel + (visiting true).length

/-- The plan's reads are values of the program. -/
def ReadsAttached (P : RuntimeProgram) : Prop := ∀ read ∈ P.srt_reads, P.ValueAttached read.value

theorem evaluatorFor_true (clean_flat_slots : List Bool) :
    P.evaluatorFor i clean_flat_slots true = true := by
  unfold evaluatorFor
  split <;> rfl

/-- What holds of all operands of a `Phi` and is kept by identities holds of the value that
`ResolveInvariantPhi` returns. -/
theorem resolveInvariantIn_keeps (hresolve : ∀ v, Q v → Q (P.resolve v))
    (hphi : ∀ phi, Q (.inst phi) → (P.insts phi).opcode = .phi → ∀ arg ∈ (P.insts phi).args, Q arg)
    {fuel : ℕ} {pending : List Value} {visited : List ℕ} {invariant result : Value}
    (hpending : ∀ v ∈ pending, Q v) (hinvariant : invariant ≠ .empty → Q invariant)
    (h : P.resolveInvariantIn fuel pending visited invariant = some result)
    (hresult : result ≠ .empty) : Q result := by
  induction fuel generalizing pending visited invariant with
  | zero =>
    cases pending with
    | nil => exact some.inj h ▸ hinvariant (some.inj h ▸ hresult)
    | cons value pending => nomatch h
  | succ fuel ih =>
    cases pending with
    | nil => exact some.inj h ▸ hinvariant (some.inj h ▸ hresult)
    | cons value pending =>
      obtain ⟨hvalue, hrest⟩ := forall_mem_cons.mp hpending
      unfold resolveInvariantIn at h
      split at h
      next phi hroot =>
        split at h
        · exact ih hrest hinvariant h
        obtain ⟨hroot, hopcode⟩ := phiOf_some hroot
        refine ih (fun v hv => ?_) hinvariant h
        rcases mem_append.mp hv with hv | hv
        · exact hphi phi (hroot ▸ hresolve value hvalue) hopcode v (mem_reverse.mp hv)
        · exact hrest v hv
      · split at h
        · exact ih hrest (fun _ => hresolve value hvalue) h
        split at h
        · exact ih hrest hinvariant h
        · exact absurd (some.inj h).symm hresult

variable {value : Value}

theorem resolveInvariantPhi_keeps (hresolve : ∀ v, Q v → Q (P.resolve v))
    (hphi : ∀ phi, Q (.inst phi) → (P.insts phi).opcode = .phi → ∀ arg ∈ (P.insts phi).args, Q arg)
    (hvalue : Q value) (hne : P.resolveInvariantPhi value ≠ .empty) :
    Q (P.resolveInvariantPhi value) := by
  unfold resolveInvariantPhi at hne ⊢
  split at hne
  · exact hresolve value hvalue
  · cases hresult : P.resolveInvariantIn (P.argCount P.ids + 1) [P.resolve value] [] .empty with
    | none => exact absurd (by rw [hresult]; rfl) hne
    | some result =>
      rw [hresult] at hne
      exact resolveInvariantIn_keeps hresolve hphi
        (fun v hv => mem_singleton.mp hv ▸ hresolve value hvalue) (fun h => absurd rfl h)
        hresult hne

theorem definition_some {id : ℕ} (h : P.definition value = some id) :
    P.resolve value = .inst id := by
  unfold definition Value.tryInstruction at h
  split at h
  next hid =>
    rw [hid, some.inj h]
  · nomatch h

theorem srtSlot_mem {read : SrtRead} (h : P.srtSlot i = some read) : read ∈ P.srt_reads := by
  unfold srtSlot at h
  split at h
  · exact mem_of_getElem? h
  · nomatch h

/-- The operands of a recipe are attached as its instruction is. -/
theorem recipe_attached (h : P.Attached) (hreads : P.ReadsAttached) (hi : i ∈ P.ids) :
    ∀ w ∈ (P.recipe i).operands, P.ValueAttached w := by
  have hdefinition {value : Value} {id : ℕ} (hvalue : P.ValueAttached value)
      (hid : P.definition value = some id) : id ∈ P.ids :=
    h.resolve hvalue id (definition_some hid)
  unfold recipe
  dsimp only
  split
  · unfold userDataRecipe
    split <;> rintro w ⟨⟩
  split
  · rintro w ⟨⟩
  split
  · split
    · rintro w ⟨⟩
    next hne =>
      intro w hw
      rw [mem_singleton.mp hw]
      refine resolveInvariantPhi_keeps (Q := P.ValueAttached) (fun v => h.resolve)
        (fun phi hphi _ arg harg y hy => ?_) (fun y hy => Value.inst.inj hy ▸ hi) hne
      exact h phi (hphi phi rfl) y (hy ▸ harg)
  split
  · unfold extractRecipe
    split
    · rintro w ⟨⟩
    split
    · rintro w ⟨⟩
    rename_i source hsource
    have hid := hdefinition (h.instArg hi 0) hsource
    split
    · rintro w ⟨⟩
    · unfold componentRecipe
      split <;> simp [Recipe.copy, Recipe.ofOp, Recipe.fail, Recipe.const, h.instArg hid]
  split
  · unfold packRecipe
    split
    · rintro w ⟨⟩
    rename_i pair hpair
    have hid := hdefinition (h.instArg hi 0) hpair
    split <;> simp [Recipe.ofOp, Recipe.fail, Recipe.const, h.instArg hid]
  split
  · unfold readConstRecipe
    split
    next read hread =>
      intro w hw
      rw [mem_singleton.mp hw]
      exact hreads read (srtSlot_mem hread)
    · rintro w ⟨⟩
  split
  · split
    · unfold rawReadRecipe
      split
      · rintro w ⟨⟩
      split
      · rintro w ⟨⟩
      rename_i handle hhandle
      have hid := hdefinition (h.instArg hi 0) hhandle
      split
      · simp [h.instArg hid, h.instArg hi]
      split <;> simp [h.instArg hid, h.instArg hi]
    · rintro w ⟨⟩
  split
  · rintro w ⟨⟩
  split
  · rintro w ⟨⟩
  · intro w hw
    obtain ⟨index, _, rfl⟩ := mem_map.mp hw
    exact h.instArg hi index

/-- With the fuel that it is given, the evaluation comes to its end. -/
theorem evaluate_safe (h : P.Attached) (hreads : P.ReadsAttached) (R : SrtRuntime)
    (clean_flat_slots : List Bool) :
    P.Safe R clean_flat_slots (fun _ _ _ => True) (fun e => e.finished = true) P.Fuelled where
  wrap e he := ⟨he, he⟩
  fuel visiting clean value hready := by
    have htrue : (visiting true).length ≤ P.ids.length :=
      (subperm_of_subset (hready.nodup true) (hready.mem true)).length_le
    have hfuel := hready.fuel
    omega
  immediate fuel visiting clean value _ hne e he := by
    unfold evaluateImmediate at he
    split at he <;> cases he
    rfl
  cyclic _ _ _ _ _ _ _ _ := rfl
  operands fuel visiting clean value i hready hi hnew w hw := by
    have hid : i ∈ P.ids := h.resolve hready.attached i hi
    have hlength (c : Bool) : (visiting c).length ≤ P.ids.length :=
      (subperm_of_subset (hready.nodup c) (hready.mem c)).length_le
    refine ⟨recipe_attached h hreads hid w hw, fun c => ?_, fun c => ?_, ?_⟩
    · by_cases hc : c = clean
      · subst hc
        rw [update_self]
        exact nodup_cons.mpr ⟨hnew, hready.nodup c⟩
      · rw [update_of_ne hc]
        exact hready.nodup c
    · by_cases hc : c = clean
      · subst hc
        rw [update_self]
        exact forall_mem_cons.mpr ⟨hid, hready.mem c⟩
      · rw [update_of_ne hc]
        exact hready.mem c
    · have hfuel := hready.fuel
      have hlength := hlength false
      cases clean with
      | true =>
        rw [evaluatorFor_true, update_self, length_cons]
        rw [if_pos rfl] at hfuel ⊢
        omega
      | false =>
        rw [update_self, update_of_ne (by decide), length_cons]
        rw [if_neg (by decide)] at hfuel
        split <;> omega
  error fuel visiting clean value i _ hi args hargs e he :=
    recipe_finishes R clean args hargs.length_eq.symm e he
  result _ _ _ _ _ _ := trivial

/-! ## Values that can be evaluated -/

/-- All that the value leads to can be evaluated, if no read is refused and no index is out of
range; and there is an end to it. -/
inductive Evaluable (P : RuntimeProgram) : Value → Prop
  | immediate {value : Value} {r : BitVec 64} (hne : ∀ i, P.resolve value ≠ .inst i)
      (h : evaluateImmediate (P.resolve value) = .ok r) : Evaluable P value
  | inst {value : Value} {i : ℕ} (hi : P.resolve value = .inst i)
      (herror : (P.recipe i).FailsIn fun e => e.allowed = true)
      (h : ∀ w ∈ (P.recipe i).operands, Evaluable P w) : Evaluable P value

/-- The second instruction asks for the value of the first. -/
def Asks (P : RuntimeProgram) (j i : ℕ) : Prop := ∃ w ∈ (P.recipe i).operands, P.resolve w = .inst j

theorem Evaluable.acc (h : P.Evaluable value) (hi : P.resolve value = .inst i) : Acc P.Asks i := by
  induction h generalizing i with
  | immediate hne _ => exact absurd hi (hne i)
  | inst hi' _ _ ih =>
    cases hi'.symm.trans hi
    refine .intro _ fun j hj => ?_
    obtain ⟨w, hw, hj⟩ := hj
    exact ih w hw hj

theorem not_asks_self {r : ℕ → ℕ → Prop} (h : Acc r i) : ¬r i i := by
  induction h with
  | intro i _ ih => exact fun hi => ih i hi hi

/-- The value can be evaluated and leads to none of the instructions that an evaluator is in. -/
structure Clear (P : RuntimeProgram) (visiting : Bool → List ℕ) (value : Value) : Prop where
  evaluable : P.Evaluable value
  apart : ∀ i, P.resolve value = .inst i → ∀ c, ∀ y ∈ visiting c, ¬Relation.ReflTransGen P.Asks y i

/-- A value that can be evaluated has the allowed errors only. -/
theorem evaluable_safe (R : SrtRuntime) (clean_flat_slots : List Bool) :
    P.Safe R clean_flat_slots (fun _ _ _ => True) (fun e => e.finished = true → e.allowed = true)
      (fun _ visiting _ value => P.Clear visiting value) where
  wrap e he := ⟨he, he⟩
  fuel _ _ _ _ h := nomatch h
  immediate fuel visiting clean value hready hne e he _ := by
    cases hready.evaluable with
    | immediate _ h => nomatch h.symm.trans he
    | inst hi _ _ => exact absurd hi (hne _)
  cyclic fuel visiting clean value i hready hi hmem :=
    absurd .refl (hready.apart i hi clean i hmem)
  operands fuel visiting clean value i hready hi _ w hw := by
    cases hready.evaluable with
    | immediate hne _ => exact absurd hi (hne i)
    | inst hi' _ hoperands =>
      cases hi'.symm.trans hi
      refine ⟨hoperands w hw, fun j hj c y hy hlead => ?_⟩
      have hasks : P.Asks j _ := ⟨w, hw, hj⟩
      have hvisited (hy : y ∈ visiting c) : False :=
        hready.apart _ hi c y hy (hlead.tail hasks)
      by_cases hc : c = clean
      · subst hc
        rw [update_self] at hy
        rcases mem_cons.mp hy with rfl | hy
        · -- the instruction would ask for itself
          have hself := Relation.TransGen.tail' hlead hasks
          exact not_asks_self (acc_transGen_iff.mpr (hready.evaluable.acc hi)) hself
        · exact hvisited hy
      · rw [update_of_ne hc] at hy
        exact hvisited hy
  error fuel visiting clean value i hready hi args hargs e he _ := by
    cases hready.evaluable with
    | immediate hne _ => exact absurd hi (hne i)
    | inst hi' herror _ =>
      cases hi'.symm.trans hi
      exact herror R clean args hargs.length_eq.symm e he
  result _ _ _ _ _ _ := trivial

end RuntimeProgram

end MagnusPS5.Shader
