/-
What `ValidateRuntimeValue` shows of a value (`SrtWalker.cpp`).

In a program whose instructions have arguments of the right types, a value that it accepts
can be evaluated as soon as the reads in the slots that the value leads to can
(`validated_evaluable`).
-/
import MagnusPS5.Shader.RuntimeValuesSpec

namespace MagnusPS5.Shader.RuntimeProgram

open Lib Program ValueOpcode List

/-! ## Types -/

/-- `ArgTypeOf`, for all arguments, with the opcodes that make runtime values. -/
def runtimeArgTypes (opcode : ValueOpcode) : Option (List IRType) :=
  if opcode = .readConst then some [.other 65536, .u32]
  else if opcode = .readConstBuffer then some [.other 131072, .u32]
  else if opcode = .loadAddressU32 then some [.other 262144, .u32, .u32, .u1]
  else if opcode = .referenceU32 then some [.u32]
  else
    match opcode.descriptorDwords with
    | some count => some (List.replicate count .u32)
    | none => opcode.argTypes

/-- Instructions have the types of their opcodes, and arguments of the types that these ask
for. -/
structure Typed (P : RuntimeProgram) (types : ℕ → IRType) : Prop where
  attached : P.Attached
  inst : ∀ i ∈ P.ids, (P.insts i).opcode ≠ .phi → (P.insts i).opcode ≠ .identity →
    types i = (P.insts i).opcode.typeOf ∧
    ∀ arg_types, runtimeArgTypes (P.insts i).opcode = some arg_types →
      (P.insts i).args.map (Program.valueType types) = arg_types
  phi : ∀ i ∈ P.ids, (P.insts i).opcode = .phi → types i = .ofFlags (P.flags i) ∧
    ∀ arg ∈ (P.insts i).args, Program.valueType types arg = types i
  identity : ∀ i ∈ P.ids, (P.insts i).opcode = .identity →
    ∃ value, (P.insts i).args = [value] ∧ Program.valueType types value = types i

/-- A value of the program, of a type of integers. -/
structure IsInteger (P : RuntimeProgram) (types : ℕ → IRType) (value : Value) : Prop where
  attached : P.ValueAttached value
  integer : (Program.valueType types value).isInteger = true

variable {P : RuntimeProgram} {types : ℕ → IRType} {i : ℕ} {value : Value}

theorem Typed.type_resolveIn (h : P.Typed types) (fuel : ℕ) (hvalue : P.ValueAttached value) :
    valueType types (P.resolveIn fuel value) = valueType types value := by
  induction fuel generalizing value with
  | zero => rfl
  | succ fuel ih =>
    cases value with
    | inst id =>
      simp only [resolveIn]
      split
      next hidentity =>
        have hid := hvalue id rfl
        obtain ⟨value, hargs, htype⟩ := h.identity id hid hidentity
        have harg : P.instArg id 0 = value := by simp [instArg, hargs]
        rw [ih (h.attached.instArg hid 0), harg]
        exact htype
      · rfl
    | _ => rfl

theorem IsInteger.resolve (h : P.Typed types) (hvalue : P.IsInteger types value) :
    P.IsInteger types (P.resolve value) where
  attached := h.attached.resolve hvalue.attached
  integer := (h.type_resolveIn _ hvalue.attached) ▸ hvalue.integer

variable {type : IRType} {arg_types : List IRType} {k fuel : ℕ} {opcode : ValueOpcode}

section

variable (h : P.Typed types) (hi : i ∈ P.ids) (hphi : (P.insts i).opcode ≠ .phi)
  (hidentity : (P.insts i).opcode ≠ .identity)
  (htypes : runtimeArgTypes (P.insts i).opcode = some arg_types) (hk : arg_types[k]? = some type)

include h hi hphi hidentity htypes hk

theorem Typed.arg :
    P.instArg i k ∈ (P.insts i).args ∧ valueType types (P.instArg i k) = type := by
  have hargs := (h.inst i hi hphi hidentity).2 arg_types htypes
  rw [← hargs, getElem?_map] at hk
  obtain ⟨arg, harg, htype⟩ := Option.map_eq_some_iff.mp hk
  have heq : P.instArg i k = arg := by
    unfold instArg
    rw [getD_eq_getElem?_getD, harg, Option.getD_some]
  rw [heq]
  exact ⟨mem_of_getElem? harg, htype⟩

theorem Typed.integer_arg (htype : type.isInteger = true) :
    P.instArg i k ∈ (P.insts i).args ∧ P.IsInteger types (P.instArg i k) := by
  obtain ⟨hmem, heq⟩ := h.arg hi hphi hidentity htypes hk
  exact ⟨hmem, h.attached.instArg hi k, heq ▸ htype⟩

end

theorem IsInteger.invariant (h : P.Typed types) (hvalue : P.IsInteger types value)
    (hne : P.resolveInvariantPhi value ≠ .empty) :
    P.IsInteger types (P.resolveInvariantPhi value) := by
  refine resolveInvariantPhi_keeps (Q := P.IsInteger types) (fun v hv => hv.resolve h) ?_ hvalue hne
  intro phi hphi hopcode arg harg
  have hid := hphi.attached phi rfl
  refine ⟨fun y hy => h.attached phi hid y (hy ▸ harg), ?_⟩
  rw [(h.phi phi hid hopcode).2 arg harg]
  exact hphi.integer

/-! ## Opcodes -/

/-- The operations on integers that have a type of integers as a whole are those that
`EvaluateInst` computes from the values of their arguments, and the two that take pairs. -/
theorem runtimeOp_of_isRuntimeIntegerOp
    (h : opcode.isRuntimeIntegerOp = true) (htype : opcode.typeOf.isInteger = true) :
    opcode = .compositeExtractU32x2 ∨ opcode = .packUint2x32 ∨ (runtimeOp opcode).isSome := by
  cases opcode <;>
    simp_all [isRuntimeIntegerOp, typeOf, IRType.isInteger, runtimeOp]

theorem runtimeOp_argTypes {op : RuntimeOp} (h : runtimeOp opcode = some op) :
    ∃ arg_types, runtimeArgTypes opcode = some arg_types ∧ arg_types.length = op.arity ∧
      ∀ type ∈ arg_types, type.isInteger = true := by
  unfold runtimeOp at h
  split at h <;> cases h <;> exact ⟨_, rfl, rfl, by decide⟩

theorem descriptorDwords_type {count : ℕ}
    (h : opcode.descriptorDwords = some count) : opcode.typeOf.isInteger = false := by
  unfold descriptorDwords at h
  split at h
  next h' =>
    rw [h']
    rfl
  split at h
  next h' =>
    rw [h']
    rfl
  split at h
  next h' =>
    rw [h']
    rfl
  split at h
  next h' =>
    rw [h']
    rfl
  · nomatch h

theorem isRuntimeRead_iff :
    isRuntimeRead opcode = true ↔ opcode = .loadAddressU32 ∨ opcode = .readConstBuffer := by
  simp [isRuntimeRead]

/-! ## Validation -/

/-- The reads in the slots that the evaluation of a value comes to. -/
inductive LeadsTo (P : RuntimeProgram) : Value → SrtRead → Prop
  | slot {value : Value} {i : ℕ} {read : SrtRead} (hi : P.resolve value = .inst i)
      (hopcode : (P.insts i).opcode = .readConst) (hread : P.srtSlot i = some read) :
      LeadsTo P value read
  | operand {value w : Value} {i : ℕ} {read : SrtRead} (hi : P.resolve value = .inst i)
      (hopcode : (P.insts i).opcode ≠ .readConst) (hw : w ∈ (P.recipe i).operands)
      (h : LeadsTo P w read) : LeadsTo P value read

/-- The opcodes that `Validate` accepts without going on with the arguments, and `Phi`. -/
def IsLeaf (opcode : ValueOpcode) : Prop :=
  opcode = .getUserData ∨ opcode = .getShaderBase ∨ opcode = .phi ∨ opcode = .getSrtResource

/-- The value has been accepted, on the way to one with more fuel. -/
def Accepted (P : RuntimeProgram) (fuel : ℕ) (value : Value) : Prop :=
  ∃ visiting, P.validateIn fuel visiting value = .ok ()

/-- What it takes to accept an instruction with arguments. -/
structure AcceptedArgs (P : RuntimeProgram) (fuel : ℕ) (i : ℕ) : Prop where
  shape : P.validateShape i = .ok ()
  opcode : P.validateOpcode i = .ok ()
  args : ∀ arg ∈ (P.insts i).args, P.Accepted fuel arg

theorem Accepted.inst (h : P.Accepted fuel value) (hi : P.resolve value = .inst i) :
    ∃ fuel', fuel = fuel' + 1 ∧
      ∃ visiting, P.validateInst i (P.validateIn fuel' visiting) = .ok () := by
  obtain ⟨visiting, h⟩ := h
  cases fuel with
  | zero => nomatch h
  | succ fuel =>
    refine ⟨fuel, rfl, i :: visiting, ?_⟩
    unfold validateIn at h
    rw [hi] at h
    dsimp only at h
    split at h
    · nomatch h
    · exact h

variable {visiting : List ℕ}

theorem acceptedArgs_of_validateInst (h : P.validateInst i (P.validateIn fuel visiting) = .ok ())
    (hleaf : ¬IsLeaf (P.insts i).opcode) : P.AcceptedArgs fuel i := by
  unfold IsLeaf at hleaf
  simp only [not_or] at hleaf
  obtain ⟨huser, hbase, hphi, hsrt⟩ := hleaf
  unfold validateInst at h
  simp only [huser, hbase, hphi, hsrt, if_false] at h
  split at h
  · simp at h
  · obtain ⟨_, hshape, h⟩ := bind_eq_ok.mp h
    obtain ⟨_, hopcode, h⟩ := bind_eq_ok.mp h
    have hargs := (forEach_eq_ok (P := fun arg => P.validateIn fuel visiting arg = .ok ())
      (fun _ _ _ => .rfl) 0 (P.insts i).args ()).mp h
    exact ⟨hshape, hopcode, fun arg harg => ⟨visiting, hargs arg harg⟩⟩

/-! ## The recipes of accepted instructions -/

/-- The recipe can be followed: it does not fail by itself, and the values it asks for have been
accepted on the way, except for that in the slot of a flattened read. -/
structure Followable (P : RuntimeProgram) (types : ℕ → IRType) (fuel i : ℕ) : Prop where
  failsIn : (P.recipe i).FailsIn fun e => e.allowed = true
  operands : (P.insts i).opcode ≠ .readConst → ∀ w ∈ (P.recipe i).operands,
    P.IsInteger types w ∧ ∃ fuel' < fuel, P.Accepted fuel' w

theorem followable_userData (hopcode : (P.insts i).opcode = .getUserData)
    (h : P.validateUserData i = .ok ()) : P.Followable types fuel i := by
  have hreg : ∃ reg, P.instArg i 0 = .scalarReg reg := by
    unfold validateUserData at h
    split at h
    next reg hargs =>
      exact ⟨reg, by simp [instArg, hargs]⟩
    · cases h
  have hrecipe : P.recipe i = P.userDataRecipe i := by simp [recipe, hopcode]
  refine ⟨?_, fun _ w hw => ?_⟩
  · rw [hrecipe]
    exact userDataRecipe_failsIn (fun _ he => he) (.inl hreg)
  · obtain ⟨reg, hreg⟩ := hreg
    rw [hrecipe, userDataRecipe, hreg] at hw
    cases hw

theorem followable_shaderBase (hopcode : (P.insts i).opcode = .getShaderBase) :
    P.Followable types fuel i := by
  have hrecipe : P.recipe i = .const fun R => .ok R.shader_base := by
    simp [recipe, hopcode, getShaderBase, getUserData]
  refine ⟨?_, fun _ w hw => ?_⟩
  · rw [hrecipe]
    exact fun R clean args _ e he => nomatch he
  · rw [hrecipe] at hw
    nomatch hw

theorem validateInst_phi {validate : Value → Except InvalidReason Unit}
    (hopcode : (P.insts i).opcode = .phi) :
    P.validateInst i validate =
      if P.resolveInvariantPhi (.inst i) = .empty then .error .dependentPhi
      else validate (P.resolveInvariantPhi (.inst i)) := by
  simp [validateInst, hopcode, isUndef, undefU1, undefU8, undefU16, undefU32, undefU64, void,
    getShaderBase, getUserData]

theorem followable_phi (h : P.Typed types)
    (hopcode : (P.insts i).opcode = .phi) (hi : P.IsInteger types (.inst i))
    (hvalid : P.validateInst i (P.validateIn fuel visiting) = .ok ()) :
    P.Followable types (fuel + 1) i := by
  have hrecipe : P.recipe i =
      if P.resolveInvariantPhi (.inst i) = .empty then .fail .dependentPhi
      else .copy (P.resolveInvariantPhi (.inst i)) := by
    simp [recipe, hopcode, getShaderBase, getUserData]
  rw [validateInst_phi hopcode] at hvalid
  by_cases hne : P.resolveInvariantPhi (.inst i) = .empty
  · rw [if_pos hne] at hvalid
    cases hvalid
  · rw [if_neg hne] at hvalid hrecipe
    refine ⟨?_, fun _ w hw => ?_⟩
    · rw [hrecipe]
      exact Recipe.failsIn_copy _
    · rw [hrecipe] at hw
      rw [mem_singleton.mp hw]
      exact ⟨hi.invariant h hne, fuel, Nat.lt_succ_self fuel, visiting, hvalid⟩

theorem definedBy_iff : P.definedBy value opcode = true ↔
      ∃ id, P.definition value = some id ∧ (P.insts id).opcode = opcode := by
  unfold definedBy
  cases P.definition value with
  | none => simp
  | some id => simp

theorem AcceptedArgs.definition {id : ℕ} (h : P.AcceptedArgs fuel i)
    (hmem : value ∈ (P.insts i).args) (hid : P.definition value = some id)
    (hleaf : ¬IsLeaf (P.insts id).opcode) : ∃ fuel' < fuel, P.AcceptedArgs fuel' id := by
  obtain ⟨fuel', rfl, visiting, hvalid⟩ := (h.args value hmem).inst (definition_some hid)
  exact ⟨fuel', Nat.lt_succ_self fuel', acceptedArgs_of_validateInst hvalid hleaf⟩

/-- An operand that is an argument of an accepted instruction, for which the opcode asks for a
type of integers. -/
theorem AcceptedArgs.operand (h : P.Typed types) {fuel' : ℕ} (hargs : P.AcceptedArgs fuel' i)
    (hfuel : fuel' < fuel) (hi : i ∈ P.ids) (hphi : (P.insts i).opcode ≠ .phi)
    (hidentity : (P.insts i).opcode ≠ .identity)
    (htypes : runtimeArgTypes (P.insts i).opcode = some arg_types)
    (hk : arg_types[k]? = some type) (htype : type.isInteger = true) :
    P.IsInteger types (P.instArg i k) ∧ ∃ fuel' < fuel, P.Accepted fuel' (P.instArg i k) := by
  obtain ⟨hmem, hinteger⟩ := h.integer_arg hi hphi hidentity htypes hk htype
  exact ⟨hinteger, fuel', hfuel, hargs.args _ hmem⟩

theorem followable_plain (h : P.Typed types) (hi : i ∈ P.ids)
    (hargs : P.AcceptedArgs fuel i) {op : RuntimeOp}
    (hop : runtimeOp (P.insts i).opcode = some op) : P.Followable types (fuel + 1) i := by
  have hrecipe : P.recipe i = .ofOp op ((range op.arity).map (P.instArg i)) := by
    unfold recipe
    generalize (P.insts i).opcode = opcode at hop
    unfold runtimeOp at hop
    split at hop <;> cases hop <;> rfl
  have hne : (P.insts i).opcode ≠ .phi ∧ (P.insts i).opcode ≠ .identity := by
    constructor <;> intro hopcode <;> rw [hopcode] at hop <;> cases hop
  obtain ⟨arg_types, htypes, hlength, hinteger⟩ := runtimeOp_argTypes hop
  refine ⟨?_, fun _ w hw => ?_⟩
  · rw [hrecipe]
    exact Recipe.failsIn_ofOp (fun _ he => he) (runtimeOp_failsAllowed hop) (by simp)
  · rw [hrecipe] at hw
    obtain ⟨k, hk, rfl⟩ := mem_map.mp hw
    have hk : k < arg_types.length := hlength ▸ mem_range.mp hk
    exact hargs.operand h (Nat.lt_succ_self fuel) hi hne.1 hne.2 htypes
      (getElem?_eq_getElem hk) (hinteger _ (getElem_mem hk))

theorem instArg_mem (h : k < (P.insts i).args.length) : P.instArg i k ∈ (P.insts i).args := by
  unfold instArg
  rw [getD_eq_getElem _ _ h]
  exact getElem_mem h

theorem validateShape_pack (hopcode : (P.insts i).opcode = .packUint2x32)
    (h : P.validateShape i = .ok ()) :
    P.instArg i 0 ∈ (P.insts i).args ∧ ∃ pair, P.definition (P.instArg i 0) = some pair ∧
      (P.insts pair).opcode = .compositeConstructU32x2 := by
  simp only [validateShape, hopcode, isRuntimeRead, readConst,
    loadAddressU32, readConstBuffer, reduceCtorEq, or_self, decide_false,
    Bool.false_eq_true, if_false, if_true, check_eq_ok] at h
  exact ⟨instArg_mem (by omega), definedBy_iff.mp h.2⟩

theorem followable_pack (h : P.Typed types) (hi : i ∈ P.ids)
    (hargs : P.AcceptedArgs fuel i) (hopcode : (P.insts i).opcode = .packUint2x32) :
    P.Followable types (fuel + 1) i := by
  obtain ⟨hmem, pair, hpair, hconstruct⟩ := validateShape_pack hopcode hargs.shape
  have hid : pair ∈ P.ids :=
    h.attached.resolve (h.attached.instArg hi 0) pair (definition_some hpair)
  obtain ⟨fuel', hfuel, hpairs⟩ := hargs.definition hmem hpair (by
    simp [IsLeaf, hconstruct, getUserData, getShaderBase, getSrtResource])
  have hrecipe : P.recipe i = .ofOp (.binary fun a b => low32 a ||| (low32 b <<< 32))
      [P.instArg pair 0, P.instArg pair 1] := by
    simp [recipe, hopcode, packRecipe, hpair, hconstruct, getShaderBase, getUserData]
  refine ⟨?_, fun _ w hw => ?_⟩
  · rw [hrecipe]
    exact Recipe.failsIn_ofOp (fun _ he => he) (RuntimeOp.binary_failsAllowed _) rfl
  · have hoperand {k : ℕ} (hk : [.u32, .u32][k]? = some .u32) :=
      hpairs.operand h (Nat.lt_succ_of_lt hfuel) hid (by rw [hconstruct]; decide)
        (by rw [hconstruct]; decide) (by rw [hconstruct]; rfl) hk rfl
    rw [hrecipe] at hw
    rcases mem_pair.mp hw with rfl | rfl
    · exact hoperand rfl
    · exact hoperand rfl

theorem validateShape_extract (hopcode : (P.insts i).opcode = .compositeExtractU32x2)
    (h : P.validateShape i = .ok ()) :
    P.instArg i 0 ∈ (P.insts i).args ∧ (∃ component < 2, P.extractComponent i = some component) ∧
      ∃ source, P.definition (P.instArg i 0) = some source ∧
        ((P.insts source).opcode = .compositeConstructU32x2 ∨
          (P.insts source).opcode = .unpackUint2x32 ∨ (P.insts source).opcode = .iAddCarry32) := by
  simp only [validateShape, hopcode, isRuntimeRead, readConst,
    loadAddressU32, readConstBuffer, reduceCtorEq, or_self, decide_false,
    Bool.false_eq_true, if_false, if_true, check_eq_ok] at h
  obtain ⟨hlength, hcomponent, hsource⟩ := h
  obtain ⟨component, hcomponent, hlt⟩ := (Option.any_eq_true _ _).mp hcomponent
  refine ⟨instArg_mem (by omega), ⟨component, of_decide_eq_true hlt, hcomponent⟩, ?_⟩
  simp only [isCompositeSource, decide_eq_true_eq, definedBy_iff] at hsource
  rcases hsource with ⟨id, hid, hcode⟩ | ⟨id, hid, hcode⟩ | ⟨id, hid, hcode⟩
  · exact ⟨id, hid, .inl hcode⟩
  · exact ⟨id, hid, .inr (.inl hcode)⟩
  · exact ⟨id, hid, .inr (.inr hcode)⟩

theorem followable_extract (h : P.Typed types) (hi : i ∈ P.ids)
    (hargs : P.AcceptedArgs fuel i) (hopcode : (P.insts i).opcode = .compositeExtractU32x2) :
    P.Followable types (fuel + 1) i := by
  obtain ⟨hmem, ⟨component, hlt, hcomponent⟩, source, hsource, hcode⟩ :=
    validateShape_extract hopcode hargs.shape
  have hid : source ∈ P.ids :=
    h.attached.resolve (h.attached.instArg hi 0) source (definition_some hsource)
  obtain ⟨fuel', hfuel, hsources⟩ := hargs.definition hmem hsource (by
    rcases hcode with hcode | hcode | hcode <;>
      simp [IsLeaf, hcode, getUserData, getShaderBase, getSrtResource])
  have hrecipe : P.recipe i = P.componentRecipe component source := by
    simp [recipe, hopcode, extractRecipe, hcomponent, hsource, getShaderBase,
      getUserData, Nat.not_le.mpr hlt]
  have hoperand {arg_types : List IRType} {k : ℕ} {type : IRType}
      (htypes : runtimeArgTypes (P.insts source).opcode = some arg_types)
      (hk : arg_types[k]? = some type) (htype : type.isInteger = true) :=
    hsources.operand h (Nat.lt_succ_of_lt hfuel) hid
      (by rcases hcode with hcode | hcode | hcode <;> rw [hcode] <;> decide)
      (by rcases hcode with hcode | hcode | hcode <;> rw [hcode] <;> decide) htypes hk htype
  refine ⟨?_, fun _ w hw => ?_⟩
  · rw [hrecipe]
    refine componentRecipe_failsIn ?_ fun _ he => he
    rcases hcode with hcode | hcode | hcode
    · exact .inl hcode
    · exact .inr (.inl hcode)
    · exact .inr (.inr (.inl hcode))
  · rw [hrecipe] at hw
    rcases hcode with hcode | hcode | hcode <;> simp only [componentRecipe, hcode] at hw
    · rw [mem_singleton.mp hw]
      have hk : [IRType.u32, .u32][component]? = some .u32 := by
        match component, hlt with
        | 0, _ => rfl
        | 1, _ => rfl
      exact hoperand (by rw [hcode]; rfl) hk rfl
    · rw [mem_singleton.mp hw]
      exact hoperand (by rw [hcode]; rfl) rfl rfl
    · rcases mem_pair.mp hw with rfl | rfl
      · exact hoperand (by rw [hcode]; rfl) rfl rfl
      · exact hoperand (by rw [hcode]; rfl) rfl rfl

theorem validateShape_readConst (hopcode : (P.insts i).opcode = .readConst)
    (h : P.validateShape i = .ok ()) : ∃ read, P.srtSlot i = some read := by
  simp only [validateShape, hopcode, if_true, check_eq_ok] at h
  exact Option.isSome_iff_exists.mp h.2.2

theorem recipe_readConst (hopcode : (P.insts i).opcode = .readConst) {read : SrtRead}
    (hread : P.srtSlot i = some read) : P.recipe i = .copy read.value := by
  simp [recipe, hopcode, readConstRecipe, hread, readConst, getShaderBase, getUserData]

theorem followable_readConst (hargs : P.AcceptedArgs fuel i)
    (hopcode : (P.insts i).opcode = .readConst) : P.Followable types (fuel + 1) i := by
  obtain ⟨read, hread⟩ := validateShape_readConst hopcode hargs.shape
  refine ⟨?_, fun hne => absurd hopcode hne⟩
  rw [recipe_readConst hopcode hread]
  exact Recipe.failsIn_copy _

theorem validateShape_rawRead (hread : isRuntimeRead (P.insts i).opcode = true)
    (h : P.validateShape i = .ok ()) :
    P.isRawRead i = true ∧ ∃ handle, P.definition (P.instArg i 0) = some handle ∧
      (P.insts handle).opcode = rawReadHandle (P.insts i).opcode := by
  have hne : (P.insts i).opcode ≠ .readConst := by
    rcases isRuntimeRead_iff.mp hread with hopcode | hopcode <;> rw [hopcode] <;> decide
  simp only [validateShape, hne, hread, if_false, if_true, check_eq_ok] at h
  exact ⟨h.1, definedBy_iff.mp h.2⟩

theorem recipe_rawRead (hread : isRuntimeRead (P.insts i).opcode = true)
    (hraw : P.isRawRead i = true) : P.recipe i = P.rawReadRecipe i := by
  unfold recipe
  dsimp only
  rw [if_pos hread, if_pos hraw]
  rcases isRuntimeRead_iff.mp hread with hopcode | hopcode <;> rw [hopcode] <;> rfl

theorem AcceptedArgs.dwords {count : ℕ} (h : P.AcceptedArgs fuel i)
    (hcount : (P.insts i).opcode.descriptorDwords = some count) :
    (P.insts i).args.length = count := by
  have hopcode := h.opcode
  unfold validateOpcode at hopcode
  dsimp only at hopcode
  rw [hcount] at hopcode
  exact check_eq_ok.mp hopcode

theorem rawReadHandle_dwords (h : isRuntimeRead opcode = true) :
    ∃ count, 2 ≤ count ∧ (rawReadHandle opcode).descriptorDwords = some count ∧
      (opcode = .readConstBuffer → count = 4) ∧
      runtimeArgTypes (rawReadHandle opcode) = some (replicate count .u32) ∧
      ¬IsLeaf (rawReadHandle opcode) ∧ rawReadHandle opcode ≠ .phi ∧
      rawReadHandle opcode ≠ .identity := by
  rcases isRuntimeRead_iff.mp h with rfl | rfl
  · exact ⟨2, by decide, rfl, by decide, rfl, by unfold IsLeaf; decide, by decide, by decide⟩
  · exact ⟨4, by decide, rfl, by decide, rfl, by unfold IsLeaf; decide, by decide, by decide⟩

theorem followable_rawRead (h : P.Typed types) (hi : i ∈ P.ids)
    (hargs : P.AcceptedArgs fuel i) (hread : isRuntimeRead (P.insts i).opcode = true) :
    P.Followable types (fuel + 1) i := by
  obtain ⟨hraw, handle, hhandle, hcode⟩ := validateShape_rawRead hread hargs.shape
  obtain ⟨count, hcount, hdwords, hbuffer, htypes, hleaf, hphi, hidentity⟩ :=
    rawReadHandle_dwords hread
  rw [← hcode] at hdwords htypes hleaf hphi hidentity
  have hmem : P.instArg i 0 ∈ (P.insts i).args ∧ ∃ type, type.isInteger = true ∧
      ∃ arg_types, runtimeArgTypes (P.insts i).opcode = some arg_types ∧
        arg_types[1]? = some type := by
    rcases isRuntimeRead_iff.mp hread with hopcode | hopcode
    · have htypes : runtimeArgTypes (P.insts i).opcode =
          some [.other 262144, .u32, .u32, .u1] := by rw [hopcode]; rfl
      exact ⟨(h.arg hi (by rw [hopcode]; decide) (by rw [hopcode]; decide) htypes rfl).1,
        .u32, rfl, _, htypes, rfl⟩
    · have htypes : runtimeArgTypes (P.insts i).opcode = some [.other 131072, .u32] := by
        rw [hopcode]; rfl
      exact ⟨(h.arg hi (by rw [hopcode]; decide) (by rw [hopcode]; decide) htypes rfl).1,
        .u32, rfl, _, htypes, rfl⟩
  obtain ⟨hmem, type, htype, arg_types, harg_types, hoffset⟩ := hmem
  have hid : handle ∈ P.ids :=
    h.attached.resolve (h.attached.instArg hi 0) handle (definition_some hhandle)
  obtain ⟨fuel', hfuel, hhandles⟩ := hargs.definition hmem hhandle hleaf
  have hlength := hhandles.dwords hdwords
  have hinfo : ∃ info, P.memory_info[P.memoryIndex i]? = some info := by
    unfold isRawRead at hraw
    split at hraw
    · nomatch hraw
    next info hinfo =>
      exact ⟨info, hinfo⟩
  obtain ⟨info, hinfo⟩ := hinfo
  have hword {k : ℕ} (hk : k < count) :=
    hhandles.operand h (Nat.lt_succ_of_lt hfuel) hid hphi hidentity htypes
      (k := k) (getElem?_replicate_of_lt hk) rfl
  have hoffset := hargs.operand h (Nat.lt_succ_self fuel) hi
    (by rcases isRuntimeRead_iff.mp hread with hopcode | hopcode <;> rw [hopcode] <;> decide)
    (by rcases isRuntimeRead_iff.mp hread with hopcode | hopcode <;> rw [hopcode] <;> decide)
    harg_types hoffset htype
  refine ⟨?_, fun _ w hw => ?_⟩
  · rw [recipe_rawRead hread hraw]
    refine rawReadRecipe_failsIn (fun _ he => he) (.inl (by simp [hinfo]))
      (.inl (by simp [hhandle])) (.inl fun handle' hhandle' hopcode => ?_)
    rw [← Option.some.inj (hhandle.symm.trans hhandle'), hlength, hbuffer hopcode]
  · rw [recipe_rawRead hread hraw] at hw
    unfold rawReadRecipe at hw
    rw [hinfo, hhandle] at hw
    dsimp only at hw
    split at hw
    · simp only [mem_cons, not_mem_nil, or_false] at hw
      rcases hw with rfl | rfl | rfl
      · exact hword (by omega)
      · exact hword (by omega)
      · exact hoffset
    rename_i hopcode
    have hcount := hbuffer (not_not.mp hopcode)
    rw [if_neg (by omega)] at hw
    simp only [cons_append, nil_append, mem_cons, not_mem_nil, or_false] at hw
    rcases hw with rfl | rfl | rfl | rfl | rfl
    · exact hword (by omega)
    · exact hword (by omega)
    · exact hoffset
    · exact hword (by omega)
    · exact hword (by omega)

theorem AcceptedArgs.cases (h : P.AcceptedArgs fuel i)
    (htype : (P.insts i).opcode.typeOf.isInteger = true) :
    (P.insts i).opcode = .readConst ∨ isRuntimeRead (P.insts i).opcode = true ∨
      (P.insts i).opcode = .compositeExtractU32x2 ∨ (P.insts i).opcode = .packUint2x32 ∨
      ∃ op, runtimeOp (P.insts i).opcode = some op := by
  have hopcode := h.opcode
  unfold validateOpcode at hopcode
  dsimp only at hopcode
  split at hopcode
  next hdwords =>
    rw [descriptorDwords_type hdwords] at htype
    nomatch htype
  · rcases check_eq_ok.mp hopcode with hopcode | hread | hop
    · exact .inl hopcode
    · exact .inr (.inl hread)
    · refine .inr (.inr ?_)
      rcases runtimeOp_of_isRuntimeIntegerOp hop htype with hopcode | hopcode | hop
      · exact .inl hopcode
      · exact .inr (.inl hopcode)
      · exact .inr (.inr (Option.isSome_iff_exists.mp hop))

section

variable (h : P.Typed types) (hvalid : P.Accepted fuel value) (hvalue : P.IsInteger types value)

include h hvalid hvalue

/-- **What validation shows of an instruction.** -/
theorem Accepted.followable (hi : P.resolve value = .inst i) : P.Followable types fuel i := by
  obtain ⟨fuel', rfl, visiting, hinst⟩ := hvalid.inst hi
  have hvalue' : P.IsInteger types (.inst i) := hi ▸ hvalue.resolve h
  have hid : i ∈ P.ids := hvalue'.attached i rfl
  by_cases huser : (P.insts i).opcode = .getUserData
  · refine followable_userData huser ?_
    unfold validateInst at hinst
    simpa [huser, isUndef, undefU1, undefU8, undefU16, undefU32, undefU64, void,
      getUserData] using hinst
  by_cases hbase : (P.insts i).opcode = .getShaderBase
  · exact followable_shaderBase hbase
  by_cases hphi : (P.insts i).opcode = .phi
  · exact followable_phi h hphi hvalue' hinst
  have hidentity : (P.insts i).opcode ≠ .identity := by
    intro hidentity
    have hargs := acceptedArgs_of_validateInst hinst (by
      simp [IsLeaf, hidentity, getUserData, getShaderBase, getSrtResource])
    have hopcode := hargs.opcode
    unfold validateOpcode at hopcode
    rw [hidentity] at hopcode
    have hsupported : identity = .readConst ∨ isRuntimeRead .identity = true ∨
      identity.isRuntimeIntegerOp = true := check_eq_ok.mp hopcode
    nomatch hsupported
  have htype : (P.insts i).opcode.typeOf.isInteger = true :=
    (h.inst i hid hphi hidentity).1 ▸ hvalue'.integer
  have hleaf : ¬IsLeaf (P.insts i).opcode := by
    rintro (hopcode | hopcode | hopcode | hopcode)
    · exact huser hopcode
    · exact hbase hopcode
    · exact hphi hopcode
    · rw [hopcode] at htype
      nomatch htype
  have hargs := acceptedArgs_of_validateInst hinst hleaf
  rcases hargs.cases htype with hopcode | hread | hopcode | hopcode | ⟨op, hop⟩
  · exact followable_readConst hargs hopcode
  · exact followable_rawRead h hid hargs hread
  · exact followable_extract h hid hargs hopcode
  · exact followable_pack h hid hargs hopcode
  · exact followable_plain h hid hargs hop

/-- **An accepted value can be evaluated, if the reads can whose slots it leads to.** -/
theorem Accepted.evaluable
    (hreads : ∀ read, P.LeadsTo value read → P.Evaluable read.value) : P.Evaluable value := by
  induction fuel using Nat.strong_induction_on generalizing value with
  | h fuel ih =>
    by_cases hinst : ∃ i, P.resolve value = .inst i
    · obtain ⟨i, hi⟩ := hinst
      have hfollowable := hvalid.followable h hvalue hi
      refine .inst hi hfollowable.failsIn fun w hw => ?_
      by_cases hopcode : (P.insts i).opcode = .readConst
      · -- the value in the slot
        cases hslot : P.srtSlot i with
        | some read =>
          rw [recipe_readConst hopcode hslot] at hw
          rw [mem_singleton.mp hw]
          exact hreads read (.slot hi hopcode hslot)
        | none =>
          have hempty : P.recipe i = .fail .invalidSlot := by
            simp [recipe, hopcode, readConstRecipe, hslot, readConst, getShaderBase, getUserData]
          rw [hempty] at hw
          nomatch hw
      · obtain ⟨hinteger, fuel', hfuel, hw'⟩ := hfollowable.operands hopcode w hw
        exact ih fuel' hfuel hw' hinteger fun read hread =>
          hreads read (.operand hi hopcode hw hread)
    · have hne (i : ℕ) : P.resolve value ≠ .inst i := fun hi => hinst ⟨i, hi⟩
      have hinteger := (hvalue.resolve h).integer
      have hok : ∃ r, evaluateImmediate (P.resolve value) = .ok r := by
        cases hv : P.resolve value with
        | inst i => exact absurd hv (hne i)
        | u1 | u8 | u16 | u32 | u64 => exact ⟨_, rfl⟩
        | _ =>
          rw [hv] at hinteger
          nomatch hinteger
      obtain ⟨r, hr⟩ := hok
      exact .immediate hne hr

end

end MagnusPS5.Shader.RuntimeProgram
