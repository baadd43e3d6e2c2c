/-
What `foldInstruction` answers, at one place of a program.

A set of instructions is `Closed` if it contains what its members other than a `Phi` use.
A `View` of it is an environment in which each member has its type and is what its opcode
makes of its arguments. In each view, the value that an instruction is folded to is the
result of the instruction (`Justified`), except for the two pairs of conversions that give
back the argument of the narrowing one: there, the argument has to fit.
-/
import MagnusPS5.Shader.FoldArithmetic

namespace MagnusPS5.Shader

open List Option BitVec Val

namespace Program

/-! ## Closed sets of instructions and their views -/

/-- The set contains what its members use. -/
def Closed (P : Program) (A : ℕ → Prop) : Prop :=
  ∀ p, A p → (P.insts p).opcode ≠ .phi → ∀ y, .inst y ∈ (P.insts p).args → A y

/-- The value is no instruction outside of the set. -/
def InScope (A : ℕ → Prop) (value : Value) : Prop := ∀ y, value = .inst y → A y

/-- An environment in which the members of the set are what they compute. -/
structure View (P : Program) (types : ℕ → IRType) (A : ℕ → Prop) (env : Env) : Prop where
  typed : ∀ p, A p → (env p).type = types p
  determined : ∀ p, A p → ∀ v, eval (P.insts p).opcode ((P.insts p).args.map (read env)) = some v →
    env p = v
  copies : ∀ p, A p → (P.insts p).opcode = .identity → env p = read env (P.instArg p 0)

/-- The pairs of conversions that `foldConvertU32U16` and `foldConvertU32U8` undo, with the
bits that the narrowing one keeps and its argument. -/
def narrowing (P : Program) (i : ℕ) : Option (ℕ × Value) :=
  match (P.insts i).opcode with
  | .convertU32U16 =>
    (P.producer (P.arg i 0) .convertU16U32).map fun p => (16, P.instArg p 0)
  | .convertU32U8 =>
    (P.producer (P.arg i 0) .convertU8U32).map fun p => (8, P.instArg p 0)
  | _ => none

end Program

/-- No bit of the value is lost in a narrowing to `bits`. -/
def Val.Fits (bits : ℕ) : Val → Prop
  | .u32 value => value.toNat < 2 ^ bits
  | _ => True

namespace Program

/-- The value that an instruction is folded to is its result. -/
structure Justified (P : Program) (types : ℕ → IRType) (A : ℕ → Prop) (i : ℕ)
    (value : Value) : Prop where
  scope : InScope A value
  type : valueType types value = types i
  result : ∀ env, P.View types A env →
    (∀ bits x, P.narrowing i = some (bits, x) → (read env x).Fits bits) →
    eval (P.insts i).opcode ((P.insts i).args.map (read env)) = some (read env value)

variable {p : ℕ} {opcode reverse : ValueOpcode} {α β γ : Type} {t t₀ : IRType} {a : Value}
  {folded : Option Value} {mask : BitVec 32}

variable {P : Program} {types : ℕ → IRType} {A : ℕ → Prop} {env : Env} {i : ℕ} {value : Value}
  {op : ValueOpcode}

section Views

theorem inScope_of_immediate (h : value.tryInstruction = none) : InScope A value := by
  rintro y rfl
  nomatch h

theorem View.read_type (hview : P.View types A env) (h : InScope A value) :
    (read env value).type = valueType types value := by
  cases value with
  | inst y => exact hview.typed y (h y rfl)
  | _ => rfl

/-! ### Identities -/

section

variable (hssa : P.Ssa types)

include hssa

theorem Ssa.identity_arg (hp : (P.insts p).opcode = .identity) :
    (P.insts p).args = [P.instArg p 0] ∧ valueType types (P.instArg p 0) = types p := by
  obtain ⟨value, hargs, htype⟩ := hssa.identity_typed p hp
  have harg : P.instArg p 0 = value := by simp [instArg, hargs]
  exact ⟨by rw [hargs, harg], by rw [harg, htype]⟩

theorem Ssa.identity_scope (hclosed : P.Closed A) (h : A p)
    (hp : (P.insts p).opcode = .identity) : InScope A (P.instArg p 0) := by
  intro y hy
  apply hclosed p h (by simp [hp]) y
  rw [(hssa.identity_arg hp).1, hy]
  exact .head _

theorem Ssa.resolveIn_scope (hclosed : P.Closed A) (fuel : ℕ)
    (h : InScope A value) : InScope A (P.resolveIn fuel value) := by
  induction fuel generalizing value with
  | zero => exact h
  | succ fuel ih =>
    cases value with
    | inst p =>
      simp only [resolveIn]
      split
      · exact ih (hssa.identity_scope hclosed (h p rfl) ‹_›)
      · exact h
    | _ => exact h

theorem Ssa.resolveIn_type (fuel : ℕ) :
    valueType types (P.resolveIn fuel value) = valueType types value := by
  induction fuel generalizing value with
  | zero => rfl
  | succ fuel ih =>
    cases value with
    | inst p =>
      simp only [resolveIn]
      split
      · rw [ih, (hssa.identity_arg ‹_›).2]
        rfl
      · rfl
    | _ => rfl

end

theorem View.resolveIn_read (hview : P.View types A env) (hssa : P.Ssa types)
    (hclosed : P.Closed A) (fuel : ℕ) (h : InScope A value) :
    read env (P.resolveIn fuel value) = read env value := by
  induction fuel generalizing value with
  | zero => rfl
  | succ fuel ih =>
    cases value with
    | inst p =>
      simp only [resolveIn]
      split
      · rw [ih (hssa.identity_scope hclosed (h p rfl) ‹_›)]
        exact (hview.copies p (h p rfl) ‹_›).symm
      · rfl
    | _ => rfl

/-! ### Arguments -/

/-- What the set has to contain for an instruction to be in it. -/
def ArgsIn (P : Program) (A : ℕ → Prop) (i : ℕ) : Prop := ∀ value ∈ (P.insts i).args, InScope A value

theorem Closed.argsIn (hclosed : P.Closed A) (h : A p) (hp : (P.insts p).opcode ≠ .phi) :
    P.ArgsIn A p := by
  rintro value hvalue y rfl
  exact hclosed p h hp y hvalue

theorem ArgsIn.instArg (h : P.ArgsIn A i) (index : ℕ) : InScope A (P.instArg i index) := by
  unfold Program.instArg
  rw [getD_eq_getElem?_getD]
  cases hget : (P.insts i).args[index]? with
  | none => exact inScope_of_immediate rfl
  | some value => exact h value (mem_of_getElem? hget)

theorem Ssa.arg_scope (hssa : P.Ssa types) (hclosed : P.Closed A) (h : P.ArgsIn A i) (index : ℕ) :
    InScope A (P.arg i index) :=
  hssa.resolveIn_scope hclosed _ (h.instArg index)

theorem Ssa.arg_type (hssa : P.Ssa types) (index : ℕ) :
    valueType types (P.arg i index) = valueType types (P.instArg i index) :=
  hssa.resolveIn_type _

theorem View.arg_read (hview : P.View types A env) (hssa : P.Ssa types) (hclosed : P.Closed A)
    (h : P.ArgsIn A i) (index : ℕ) : read env (P.arg i index) = read env (P.instArg i index) :=
  hview.resolveIn_read hssa hclosed _ (h.instArg index)

section

variable (hssa : P.Ssa types) {ts : List IRType} (h : (P.insts i).opcode.argTypes = some ts)

include hssa h

theorem Ssa.args_eq :
    (P.insts i).args = (range ts.length).map (P.instArg i) ∧
    ts = (range ts.length).map fun k => valueType types (P.instArg i k) := by
  have hphi : (P.insts i).opcode ≠ .phi := by
    rintro hphi
    simp [hphi, ValueOpcode.argTypes] at h
  have hidentity : (P.insts i).opcode ≠ .identity := by
    rintro hidentity
    simp [hidentity, ValueOpcode.argTypes] at h
  have htypes := (hssa.typed i hphi hidentity).2 ts h
  have hlength : ts.length = (P.insts i).args.length := by rw [← htypes, length_map]
  have hargs : (P.insts i).args = (range ts.length).map (P.instArg i) := by
    apply ext_getElem
    · simp [hlength]
    · intro k hk hk'
      simp [Program.instArg, hk]
  refine ⟨hargs, ?_⟩
  calc ts = (P.insts i).args.map (valueType types) := htypes.symm
    _ = ((range ts.length).map (P.instArg i)).map (valueType types) := by rw [← hargs]
    _ = (List.range ts.length).map fun k => valueType types (P.instArg i k) := by
        rw [List.map_map]
        rfl

theorem Ssa.arg_types :
    ts = (range ts.length).map fun k => valueType types (P.arg i k) := by
  simp only [hssa.arg_type]
  exact (hssa.args_eq h).2

theorem View.read_args (hview : P.View types A env) (hclosed : P.Closed A) (hin : P.ArgsIn A i) :
    (P.insts i).args.map (read env) =
      (List.range ts.length).map fun k => read env (P.arg i k) := by
  rw [(hssa.args_eq h).1, List.map_map]
  apply map_congr_left
  intro k _
  exact (hview.arg_read hssa hclosed hin k).symm

end

theorem producer_eq_some (h : P.producer value opcode = some p) :
    value = .inst p ∧ (P.insts p).opcode = opcode := by
  obtain ⟨h1, h2⟩ := filter_eq_some_iff.mp h
  refine ⟨?_, of_decide_eq_true h2⟩
  cases value with
  | inst y => exact congrArg Value.inst (some.inj h1)
  | _ => nomatch h1

theorem Ssa.type_eq (hssa : P.Ssa types) {arg_types : List IRType}
    (h : (P.insts i).opcode.argTypes = some arg_types) : types i = (P.insts i).opcode.typeOf := by
  apply (hssa.typed i _ _).1
  · rintro hphi
    simp [hphi, ValueOpcode.argTypes] at h
  · rintro hidentity
    simp [hidentity, ValueOpcode.argTypes] at h

/-! ### Producers -/

section Producers

variable {arg_types : List IRType}

theorem Closed.producer_args (hclosed : P.Closed A) (hvalue : InScope A value)
    (h : P.producer value opcode = some p) (ht : opcode.argTypes = some arg_types) :
    P.ArgsIn A p := by
  obtain ⟨rfl, rfl⟩ := producer_eq_some h
  apply hclosed.argsIn (hvalue p rfl)
  rintro hphi
  simp [hphi, ValueOpcode.argTypes] at ht

section

variable (hssa : P.Ssa types) (h : P.producer value opcode = some p)
  (ht : opcode.argTypes = some arg_types)

include hssa h ht

theorem Ssa.producer_type : valueType types value = opcode.typeOf := by
  obtain ⟨rfl, rfl⟩ := producer_eq_some h
  exact hssa.type_eq ht

theorem Ssa.producer_arg_types :
    arg_types = (range arg_types.length).map fun k => valueType types (P.instArg p k) := by
  obtain ⟨rfl, rfl⟩ := producer_eq_some h
  exact (hssa.args_eq ht).2

end

theorem View.producer_value (hview : P.View types A env) (hssa : P.Ssa types)
    (hvalue : InScope A value) (h : P.producer value opcode = some p)
    (ht : opcode.argTypes = some arg_types) {v : Val}
    (heval : eval opcode ((List.range arg_types.length).map fun k => read env (P.instArg p k)) =
      some v) : read env value = v := by
  obtain ⟨rfl, rfl⟩ := producer_eq_some h
  apply hview.determined p (hvalue p rfl)
  rw [(hssa.args_eq ht).1, List.map_map]
  exact heval

end Producers

end Views

/-! ## Immediates -/

/-- A type of immediates, as values of a program and of an environment. -/
structure Carrier (α : Type) where
  type : IRType
  value : α → Value
  val : α → Val
  immediate : ∀ a, (value a).tryInstruction = none
  valueType_eq : ∀ types a, valueType types (value a) = type
  read_eq : ∀ env a, read env (value a) = val a
  of_type : ∀ v : Val, v.type = type → ∃ a, v = val a

namespace Carrier

abbrev u1 : Carrier Bool :=
  ⟨.u1, .u1, .u1, fun _ => rfl, fun _ _ => rfl, fun _ _ => rfl, fun _ => of_u1⟩

abbrev u32 : Carrier (BitVec 32) :=
  ⟨.u32, .u32, .u32, fun _ => rfl, fun _ _ => rfl, fun _ _ => rfl, fun _ => of_u32⟩

abbrev u64 : Carrier (BitVec 64) :=
  ⟨.u64, .u64, .u64, fun _ => rfl, fun _ _ => rfl, fun _ _ => rfl, fun _ => of_u64⟩

end Carrier

section Folds

variable (P : Program) (i : ℕ)

/-- What is folded is two immediates, by `f`. -/
def Folds (a : Carrier α) (b : Carrier β) (c : Carrier γ) (f : α → β → γ)
    (folded : Option Value) : Prop :=
  ∀ value, folded = some value →
    ∃ x y, P.arg i 0 = a.value x ∧ P.arg i 1 = b.value y ∧ value = c.value (f x y)

theorem folds_u32 (f : BitVec 32 → BitVec 32 → BitVec 32) :
    P.Folds i .u32 .u32 .u32 f (P.foldU32 i f) := by
  intro value h
  unfold foldU32 at h
  split at h
  · exact ⟨_, _, ‹_›, ‹_›, (some.inj h).symm⟩
  · nomatch h

theorem folds_u64 (f : BitVec 64 → BitVec 64 → BitVec 64) :
    P.Folds i .u64 .u64 .u64 f (P.foldU64 i f) := by
  intro value h
  unfold foldU64 at h
  split at h
  · exact ⟨_, _, ‹_›, ‹_›, (some.inj h).symm⟩
  · nomatch h

theorem folds_u64Shift (f : BitVec 64 → BitVec 32 → BitVec 64) :
    P.Folds i .u64 .u32 .u64 f (P.foldU64Shift i f) := by
  intro value h
  unfold foldU64Shift at h
  split at h
  · exact ⟨_, _, ‹_›, ‹_›, (some.inj h).symm⟩
  · nomatch h

theorem folds_u32Compare (f : BitVec 32 → BitVec 32 → Bool) :
    P.Folds i .u32 .u32 .u1 f (P.foldU32Compare i f) := by
  intro value h
  unfold foldU32Compare at h
  split at h
  · exact ⟨_, _, ‹_›, ‹_›, (some.inj h).symm⟩
  · nomatch h

theorem folds_u64Compare (f : BitVec 64 → BitVec 64 → Bool) :
    P.Folds i .u64 .u64 .u1 f (P.foldU64Compare i f) := by
  intro value h
  unfold foldU64Compare at h
  split at h
  · exact ⟨_, _, ‹_›, ‹_›, (some.inj h).symm⟩
  · nomatch h

theorem folds_logical (f : Bool → Bool → Bool) : P.Folds i .u1 .u1 .u1 f (P.foldLogical i f) := by
  intro value h
  unfold foldLogical at h
  split at h
  · exact ⟨_, _, ‹_›, ‹_›, (some.inj h).symm⟩
  · nomatch h

end Folds

/-! ## The functions that fold a family of opcodes

Each of the following is about an instruction `i` whose opcode is `op`. -/

/-- An instruction with the opcode that uses members of the set. -/
structure Site (P : Program) (types : ℕ → IRType) (A : ℕ → Prop) (i : ℕ) (op : ValueOpcode) :
    Prop where
  ssa : P.Ssa types
  closed : P.Closed A
  args : P.ArgsIn A i
  opcode : (P.insts i).opcode = op

section Families

variable {t₁ t₂ t₃ : IRType} (site : P.Site types A i op)

include site

theorem Site.scope (index : ℕ) : InScope A (P.arg i index) :=
  site.ssa.arg_scope site.closed site.args index

theorem Site.justified {arg_types : List IRType} (ht : op.argTypes = some arg_types)
    (hscope : InScope A value) (htype : valueType types value = op.typeOf)
    (hresult : ∀ env, P.View types A env →
      (∀ bits x, P.narrowing i = some (bits, x) → (read env x).Fits bits) →
      eval op ((range arg_types.length).map fun k => read env (P.arg i k)) =
        some (read env value)) : P.Justified types A i value := by
  obtain ⟨hssa, hclosed, hin, rfl⟩ := site
  refine ⟨hscope, htype.trans (hssa.type_eq ht).symm, fun env hview hfits => ?_⟩
  rw [hview.read_args hssa ht hclosed hin]
  exact hresult env hview hfits

theorem justified₁ (ht : op.argTypes = some [t₀]) (hscope : InScope A value)
    (htype : valueType types value = op.typeOf) (hresult : ∀ env, P.View types A env →
      eval op [read env (P.arg i 0)] = some (read env value)) : P.Justified types A i value :=
  site.justified ht hscope htype fun env hview _ => hresult env hview

theorem justified₂ (ht : op.argTypes = some [t₀, t₁]) (hscope : InScope A value)
    (htype : valueType types value = op.typeOf) (hresult : ∀ env, P.View types A env →
      eval op [read env (P.arg i 0), read env (P.arg i 1)] = some (read env value)) :
    P.Justified types A i value :=
  site.justified ht hscope htype fun env hview _ => hresult env hview

theorem justified₃ (ht : op.argTypes = some [t₀, t₁, t₂]) (hscope : InScope A value)
    (htype : valueType types value = op.typeOf) (hresult : ∀ env, P.View types A env →
      eval op [read env (P.arg i 0), read env (P.arg i 1), read env (P.arg i 2)] =
        some (read env value)) : P.Justified types A i value :=
  site.justified ht hscope htype fun env hview _ => hresult env hview

/-! ### Two immediates -/

theorem justified_pair {b : Value} (ht : op.argTypes = some [t₀, t₁]) (h0 : P.arg i 0 = a)
    (h1 : P.arg i 1 = b) (himmediate : value.tryInstruction = none)
    (htype : valueType types value = op.typeOf)
    (heval : ∀ env, eval op [read env a, read env b] = some (read env value)) :
    P.Justified types A i value := by
  apply justified₂ site ht (inScope_of_immediate himmediate) htype
  intro env _
  rw [h0, h1]
  exact heval env

section Carriers

variable {a : Carrier α} {b : Carrier β} {c : Carrier γ}

theorem folds_justified {f : α → β → γ} (hfold : P.Folds i a b c f folded)
    (ht : op.argTypes = some [a.type, b.type]) (htype : op.typeOf = c.type)
    (heval : ∀ x y, eval op [a.val x, b.val y] = some (c.val (f x y)))
    (h : folded = some value) : P.Justified types A i value := by
  obtain ⟨x, y, h0, h1, rfl⟩ := hfold value h
  apply justified_pair site ht h0 h1 (c.immediate _) ((c.valueType_eq types _).trans htype.symm)
  intro env
  rw [a.read_eq, b.read_eq, c.read_eq]
  exact heval x y

end Carriers

/-! ### One argument that does not matter -/

theorem Site.arg_types₂ (ht : op.argTypes = some [t₀, t₁]) :
    valueType types (P.arg i 0) = t₀ ∧ valueType types (P.arg i 1) = t₁ := by
  have h := site.ssa.arg_types (site.opcode ▸ ht)
  simp only [length_cons, length_nil, range, range.loop, map_cons,
    map_nil, cons.injEq, and_true] at h
  exact ⟨h.1.symm, h.2.symm⟩

theorem justified_first (ht : op.argTypes = some [t, t₁]) (htype : op.typeOf = t)
    (heval : ∀ env v, v.type = t → eval op [v, read env (P.arg i 1)] = some v) :
    P.Justified types A i (P.arg i 0) := by
  have htypes := (site.arg_types₂ ht).1
  apply justified₂ site ht (site.scope 0) (htypes.trans htype.symm)
  intro env hview
  exact heval env _ ((hview.read_type (site.scope 0)).trans htypes)

theorem justified_second (ht : op.argTypes = some [t₀, t]) (htype : op.typeOf = t)
    (heval : ∀ env v, v.type = t → eval op [read env (P.arg i 0), v] = some v) :
    P.Justified types A i (P.arg i 1) := by
  have htypes := (site.arg_types₂ ht).2
  apply justified₂ site ht (site.scope 1) (htypes.trans htype.symm)
  intro env hview
  exact heval env _ ((hview.read_type (site.scope 1)).trans htypes)

theorem replaceBinaryIdentity_justified {identity : Value} (ht : op.argTypes = some [t, t])
    (htype : op.typeOf = t) (hleft : ∀ env v, v.type = t → eval op [read env identity, v] = some v)
    (hright : ∀ env v, v.type = t → eval op [v, read env identity] = some v)
    (h : P.replaceBinaryIdentity i identity = some value) : P.Justified types A i value := by
  unfold replaceBinaryIdentity at h
  split at h
  next h0 =>
    cases h
    exact justified_second site ht htype (h0 ▸ hleft)
  split at h
  next h1 =>
    cases h
    exact justified_first site ht htype (h1 ▸ hright)
  · nomatch h

theorem foldSubZero_justified {zero : Value} (ht : op.argTypes = some [t, t])
    (htype : op.typeOf = t) (hright : ∀ env v, v.type = t → eval op [v, read env zero] = some v)
    (h : P.foldSubZero i zero = some value) : P.Justified types A i value := by
  unfold foldSubZero at h
  split at h
  next h1 =>
    cases h
    exact justified_first site ht htype (h1 ▸ hright)
  · nomatch h

theorem foldShiftZero_justified (ht : op.argTypes = some [t, .u32]) (htype : op.typeOf = t)
    (hright : ∀ shift v, shift &&& mask = 0 → v.type = t → eval op [v, .u32 shift] = some v)
    (h : P.foldShiftZero i mask = some value) : P.Justified types A i value := by
  unfold foldShiftZero at h
  split at h
  next shift h1 =>
    split at h
    next hzero =>
      cases h
      apply justified_first site ht htype
      intro env v hv
      rw [h1]
      exact hright shift v hzero hv
    · nomatch h
  · nomatch h

/-! ### Two immediates, or one that does not matter -/

omit site in
theorem or_justified {first second : Option Value} (h : first.or second = some value)
    (hfirst : first = some value → P.Justified types A i value)
    (hsecond : second = some value → P.Justified types A i value) :
    P.Justified types A i value := by
  rcases or_eq_some_iff.mp h with h | ⟨_, h⟩
  · exact hfirst h
  · exact hsecond h

section Carriers

variable {c : Carrier α} (htype : op.typeOf = c.type)

include htype

variable {f : α → α → α}

section

variable (hfold : P.Folds i c c c f folded) (ht : op.argTypes = some [c.type, c.type])
  (heval : ∀ x y, eval op [c.val x, c.val y] = some (c.val (f x y)))

include hfold ht heval

theorem foldIdentity_justified {identity : α}
    (hleft : ∀ x, f identity x = x) (hright : ∀ x, f x identity = x)
    (h : folded.or (P.replaceBinaryIdentity i (c.value identity)) = some value) :
    P.Justified types A i value := by
  apply or_justified h (folds_justified site hfold ht htype heval)
  apply replaceBinaryIdentity_justified site ht htype
  · intro env v hv
    obtain ⟨x, rfl⟩ := c.of_type v hv
    rw [c.read_eq, heval, hleft]
  · intro env v hv
    obtain ⟨x, rfl⟩ := c.of_type v hv
    rw [c.read_eq, heval, hright]

theorem foldSub_justified {zero : α}
    (hright : ∀ x, f x zero = x) (h : folded.or (P.foldSubZero i (c.value zero)) = some value) :
    P.Justified types A i value := by
  apply or_justified h (folds_justified site hfold ht htype heval)
  apply foldSubZero_justified site ht htype
  intro env v hv
  obtain ⟨x, rfl⟩ := c.of_type v hv
  rw [c.read_eq, heval, hright]

end

theorem foldShift_justified {f : α → ℕ → α}
    (hfold : P.Folds i c .u32 c (fun x y => f x (y &&& mask).toNat) folded)
    (ht : op.argTypes = some [c.type, .u32])
    (heval : ∀ x y, eval op [c.val x, .u32 y] = some (c.val (f x (y &&& mask).toNat)))
    (hzero : ∀ x, f x 0 = x) (h : folded.or (P.foldShiftZero i mask) = some value) :
    P.Justified types A i value := by
  apply or_justified h (folds_justified site hfold ht htype heval)
  apply foldShiftZero_justified site ht htype
  intro shift v hshift hv
  obtain ⟨x, rfl⟩ := c.of_type v hv
  rw [heval, hshift]
  exact congrArg (some ∘ c.val) (hzero x)

end Carriers

theorem foldUnit_justified {f : Bool → Bool → Bool} (unit : Bool)
    {known : Bool} (ht : op.argTypes = some [.u1, .u1]) (htype : op.typeOf = .u1)
    (heval : ∀ a b, eval op [.u1 a, .u1 b] = some (.u1 (f a b)))
    (hcomm : ∀ a b, f a b = f b a) (hunit : ∀ a, f a unit = a)
    (hzero : known ≠ unit → ∀ a, f a known = known) {other : Value}
    (h : P.arg i 0 = .u1 known ∧ P.arg i 1 = other ∨ P.arg i 1 = .u1 known ∧ P.arg i 0 = other) :
    P.Justified types A i (if known = unit then other else .u1 known) := by
  have hresult : ∀ a, f a known = if known = unit then a else known := by
    intro a
    split
    next heq =>
      rw [heq, hunit]
    next hne =>
      exact hzero hne a
  have hread : ∀ env a, read env other = .u1 a →
      read env (if known = unit then other else .u1 known) = .u1 (f a known) := by
    intro env a ha
    rw [hresult]
    split
    · exact ha
    · rfl
  have hscope : InScope A (if known = unit then other else .u1 known) := by
    split
    · rcases h with ⟨_, rfl⟩ | ⟨_, rfl⟩
      · exact site.scope 1
      · exact site.scope 0
    · exact inScope_of_immediate rfl
  obtain ⟨htype0, htype1⟩ := site.arg_types₂ ht
  rcases h with ⟨h0, rfl⟩ | ⟨h1, rfl⟩
  · apply justified₂ site ht hscope
    · rw [htype]
      split
      · exact htype1
      · rfl
    · intro env hview
      obtain ⟨a, ha⟩ := of_u1 ((hview.read_type (site.scope 1)).trans htype1)
      rw [hread env a ha, h0, ha, hcomm]
      exact heval known a
  · apply justified₂ site ht hscope
    · rw [htype]
      split
      · exact htype0
      · rfl
    · intro env hview
      obtain ⟨a, ha⟩ := of_u1 ((hview.read_type (site.scope 0)).trans htype0)
      rw [hread env a ha, h1, ha]
      exact heval a known

/-! ### Two operations that undo each other -/

theorem foldReverse_justified (ht : op.argTypes = some [t₀])
    (hreverse : reverse.argTypes = some [t]) (htype : op.typeOf = t)
    (heval : ∀ v, v.type = t → ∃ u, eval reverse [v] = some u ∧ eval op [u] = some v)
    (h : P.foldReverse i reverse = some value) : P.Justified types A i value := by
  obtain ⟨p, hp, rfl⟩ := map_eq_some_iff.mp h
  have hscope : InScope A (P.instArg p 0) :=
    (site.closed.producer_args (site.scope 0) hp hreverse).instArg 0
  have hvalue : valueType types (P.instArg p 0) = t :=
    (cons.inj (site.ssa.producer_arg_types hp hreverse)).1.symm
  apply justified₁ site ht hscope (hvalue.trans htype.symm)
  intro env hview
  obtain ⟨u, hu, hv⟩ := heval _ ((hview.read_type hscope).trans hvalue)
  rw [hview.producer_value site.ssa (site.scope 0) hp hreverse hu]
  exact hv

theorem justified_single (ht : op.argTypes = some [t₀]) (h0 : P.arg i 0 = a)
    (himmediate : value.tryInstruction = none) (htype : valueType types value = op.typeOf)
    (heval : ∀ env, eval op [read env a] = some (read env value)) :
    P.Justified types A i value := by
  apply justified₁ site ht (inScope_of_immediate himmediate) htype
  intro env _
  rw [h0]
  exact heval env

end Families

/-! ## The opcodes with a body of their own -/

variable {bits : ℕ}

section Bodies

theorem foldSelect_justified (site : P.Site types A i op)
    (ht : op.argTypes = some [.u1, t, t]) (htype : op.typeOf = t)
    (heval : ∀ args, eval op args = onSelect args) (h : P.foldSelect i = some value) :
    P.Justified types A i value := by
  have harg_types := site.ssa.arg_types (site.opcode ▸ ht)
  simp only [length_cons, length_nil, range, range.loop, map_cons,
    map_nil, cons.injEq, and_true] at harg_types
  obtain ⟨h0, h1, h2⟩ := harg_types
  unfold foldSelect at h
  simp only at h
  split at h
  next condition hcondition =>
    cases h
    cases condition with
    | true =>
      refine justified₃ site ht (site.scope 1) (h1.symm.trans htype.symm) ?_
      intro env _
      rw [heval, hcondition]
      rfl
    | false =>
      refine justified₃ site ht (site.scope 2) (h2.symm.trans htype.symm) ?_
      intro env _
      rw [heval, hcondition]
      rfl
  split at h
  next hequal =>
    cases h
    apply justified₃ site ht (site.scope 1) (h1.symm.trans htype.symm)
    intro env hview
    -- the condition is not known, and both arms are the same
    obtain ⟨condition, hc⟩ := of_u1 ((hview.read_type (site.scope 0)).trans h0.symm)
    rw [heval, hc, hequal]
    cases condition <;> rfl
  · nomatch h

/-! ### Conversions -/

theorem foldBitCast_justified (site : P.Site types A i op) (ht : op.argTypes = some [t₀])
    (hreverse : reverse.argTypes = some [t]) (htype : op.typeOf = t)
    (heval : ∀ v, v.type = t → ∃ u, eval reverse [v] = some u ∧ eval op [u] = some v)
    (h : P.foldBitCast i op reverse = some value) : P.Justified types A i value := by
  unfold foldBitCast at h
  split at h
  iterate 4
    next bits h0 =>
      cases h
      exact justified_single site rfl h0 rfl rfl fun _ => rfl
  · exact foldReverse_justified site ht hreverse htype heval h

theorem foldConvertU16U32_justified (site : P.Site types A i .convertU16U32)
    (h : P.foldConvertU16U32 i = some value) : P.Justified types A i value := by
  unfold foldConvertU16U32 at h
  split at h
  next a h0 =>
    cases h
    exact justified_single site rfl h0 rfl rfl fun _ => rfl
  · nomatch h

theorem foldConvertU8U32_justified (site : P.Site types A i .convertU8U32)
    (h : P.foldConvertU8U32 i = some value) : P.Justified types A i value := by
  unfold foldConvertU8U32 at h
  split at h
  next a h0 =>
    cases h
    exact justified_single site rfl h0 rfl rfl fun _ => rfl
  · nomatch h

variable {narrow construct : ValueOpcode}

section

variable (site : P.Site types A i op) (ht : op.argTypes = some [t])
  (hnarrow : narrow.argTypes = some [.u32]) (hp : P.producer (P.arg i 0) narrow = some p)
  (heval : ∀ a : BitVec 32, ∃ u, eval narrow [.u32 a] = some u ∧
    eval op [u] = some (.u32 (BitVec.ofNat 32 (a.toNat % 2 ^ bits))))

include site ht hnarrow hp heval

theorem widen_narrow (hview : P.View types A env) :
    ∃ a, read env (P.instArg p 0) = .u32 a ∧
      eval (P.insts i).opcode ((P.insts i).args.map (read env)) =
        some (.u32 (BitVec.ofNat 32 (a.toNat % 2 ^ bits))) := by
  have harg := site.scope 0
  obtain ⟨hssa, hclosed, hin, rfl⟩ := site
  have hscope : InScope A (P.instArg p 0) := (hclosed.producer_args harg hp hnarrow).instArg 0
  have hvalue : valueType types (P.instArg p 0) = .u32 :=
    (cons.inj (hssa.producer_arg_types hp hnarrow)).1.symm
  obtain ⟨a, ha⟩ := of_u32 ((hview.read_type hscope).trans hvalue)
  obtain ⟨u, hu, hv⟩ := heval a
  refine ⟨a, ha, ?_⟩
  have hread : read env (P.arg i 0) = u := by
    apply hview.producer_value hssa harg hp hnarrow
    simpa [range, range.loop, ha] using hu
  rw [hview.read_args hssa ht hclosed hin]
  simpa [range, range.loop, hread] using hv

theorem narrowing_justified (htype : op.typeOf = .u32)
    (hnarrowing : P.narrowing i = some (bits, P.instArg p 0)) :
    P.Justified types A i (P.instArg p 0) := by
  refine ⟨(site.closed.producer_args (site.scope 0) hp hnarrow).instArg 0, ?_,
    fun env hview hfits => ?_⟩
  · rw [site.ssa.type_eq (site.opcode ▸ ht), site.opcode, htype]
    exact (cons.inj (site.ssa.producer_arg_types hp hnarrow)).1.symm
  · obtain ⟨a, ha, hresult⟩ := widen_narrow site ht hnarrow hp heval hview
    have hlt : a.toNat < 2 ^ bits := by
      have h := hfits bits _ hnarrowing
      rw [ha] at h
      exact h
    rw [hresult, ha, Nat.mod_eq_of_lt hlt, ofNat_toNat, setWidth_eq]

end

theorem widen_narrow_16 (a : BitVec 32) : ∃ u, eval .convertU16U32 [.u32 a] = some u ∧
    eval .convertU32U16 [u] = some (.u32 (BitVec.ofNat 32 (a.toNat % 2 ^ 16))) := by
  refine ⟨.u16 (BitVec.ofNat 16 a.toNat), rfl, ?_⟩
  show some (u32 (BitVec.ofNat 32 (BitVec.ofNat 16 a.toNat).toNat)) = _
  rw [toNat_ofNat]

theorem widen_narrow_8 (a : BitVec 32) : ∃ u, eval .convertU8U32 [.u32 a] = some u ∧
    eval .convertU32U8 [u] = some (.u32 (BitVec.ofNat 32 (a.toNat % 2 ^ 8))) := by
  refine ⟨.u8 (BitVec.ofNat 8 a.toNat), rfl, ?_⟩
  show some (u32 (BitVec.ofNat 32 (BitVec.ofNat 8 a.toNat).toNat)) = _
  rw [toNat_ofNat]

theorem foldConvertU32U16_justified (site : P.Site types A i .convertU32U16)
    (h : P.foldConvertU32U16 i = some value) : P.Justified types A i value := by
  unfold foldConvertU32U16 at h
  split at h
  next a h0 =>
    cases h
    apply justified_single site rfl h0 rfl rfl
    intro env
    exact congrArg (some ∘ u32) (ofNat_toNat 32 a)
  · obtain ⟨p, hp, rfl⟩ := map_eq_some_iff.mp h
    apply narrowing_justified site rfl rfl hp widen_narrow_16 rfl
    simp [narrowing, site.opcode, hp]

theorem foldConvertU32U8_justified (site : P.Site types A i .convertU32U8)
    (h : P.foldConvertU32U8 i = some value) : P.Justified types A i value := by
  unfold foldConvertU32U8 at h
  split at h
  next a h0 =>
    cases h
    apply justified_single site rfl h0 rfl rfl
    intro env
    exact congrArg (some ∘ u32) (ofNat_toNat 32 a)
  · obtain ⟨p, hp, rfl⟩ := map_eq_some_iff.mp h
    apply narrowing_justified site rfl rfl hp widen_narrow_8 rfl
    simp [narrowing, site.opcode, hp]

/-! ### Vectors -/

theorem foldCompositeExtract_cases {components : ℕ}
    (h : P.foldCompositeExtract i construct components = some value) :
    ∃ index : BitVec 32, P.arg i 1 = .u32 index ∧ index.toNat < components ∧
      ((∃ p, P.producer (P.arg i 0) construct = some p ∧ value = P.instArg p index.toNat) ∨
       (∃ p, P.producer (P.arg i 0) .iAddCarry32 = some p ∧ index.toNat < 2 ∧
         P.extractCarry p index.toNat = some value) ∨
       (∃ p, P.producer (P.arg i 0) .unpackUint2x32 = some p ∧ index.toNat < 2 ∧
         P.extractUnpacked p index.toNat = some value)) := by
  unfold foldCompositeExtract at h
  split at h
  next index hindex =>
    simp only at h
    split at h
    · nomatch h
    · refine ⟨index, hindex, by omega, ?_⟩
      split at h
      next p hp =>
        exact .inl ⟨p, hp, (some.inj h).symm⟩
      · split at h
        next hlt =>
          rcases or_eq_some_iff.mp h with h | ⟨_, h⟩
          · obtain ⟨p, hp, h⟩ := bind_eq_some_iff.mp h
            exact .inr (.inl ⟨p, hp, hlt, h⟩)
          · obtain ⟨p, hp, h⟩ := bind_eq_some_iff.mp h
            exact .inr (.inr ⟨p, hp, hlt, h⟩)
        · nomatch h
  · nomatch h

theorem constructed_justified {n : ℕ}
    {index : BitVec 32} (site : P.Site types A i op) (ht : op.argTypes = some [t, .u32])
    (htype : op.typeOf = .u32) (hconstruct : construct.argTypes = some (replicate n .u32))
    (hindex : P.arg i 1 = .u32 index) (hlt : index.toNat < n)
    (hp : P.producer (P.arg i 0) construct = some p) (heval : ∀ words : ℕ → BitVec 32, ∃ u,
      eval construct ((range n).map fun k => .u32 (words k)) = some u ∧
      eval op [u, .u32 index] = some (.u32 (words index.toNat))) :
    P.Justified types A i (P.instArg p index.toNat) := by
  have harg := site.scope 0
  have hscope := (site.closed.producer_args harg hp hconstruct).instArg
  have hvalue : ∀ k < n, valueType types (P.instArg p k) = .u32 := by
    intro k hk
    have h := congrArg (fun list => list[k]?) (site.ssa.producer_arg_types hp hconstruct)
    simpa [hk] using h.symm
  apply justified₂ site ht (hscope _) ((hvalue _ hlt).trans htype.symm)
  intro env hview
  have hread : ∀ k, ∃ a, k < n → read env (P.instArg p k) = .u32 a := by
    intro k
    by_cases hk : k < n
    · obtain ⟨a, ha⟩ := of_u32 ((hview.read_type (hscope k)).trans (hvalue k hk))
      exact ⟨a, fun _ => ha⟩
    · exact ⟨0, fun h => absurd h hk⟩
  choose words hwords using hread
  obtain ⟨u, hu, hv⟩ := heval words
  have hcomposite : read env (P.arg i 0) = u := by
    apply hview.producer_value site.ssa harg hp hconstruct
    rw [length_replicate, ← hu]
    congr 1
    apply map_congr_left
    intro k hk
    exact hwords k (mem_range.mp hk)
  rw [hcomposite, hindex, hwords _ hlt]
  exact hv

theorem foldCompositeExtractU32x2_justified (site : P.Site types A i .compositeExtractU32x2)
    (h : P.foldCompositeExtract i .compositeConstructU32x2 2 = some value) :
    P.Justified types A i value := by
  obtain ⟨index, hindex, hlt, h⟩ := foldCompositeExtract_cases h
  have harg := site.scope 0
  have hcomponent : index = 0#32 ∨ index = 1#32 := by
    have h : index.toNat = 0 ∨ index.toNat = 1 := by omega
    exact h.imp (fun h => eq_of_toNat_eq h) (fun h => eq_of_toNat_eq h)
  rcases h with ⟨p, hp, rfl⟩ | ⟨p, hp, _, h⟩ | ⟨p, hp, _, h⟩
  · apply constructed_justified site rfl rfl rfl hindex hlt hp
    intro words
    refine ⟨.u32x2 (words 0) (words 1), rfl, ?_⟩
    rcases hcomponent with rfl | rfl
    · rfl
    · rfl
  · unfold extractCarry at h
    split at h
    next lhs rhs h0 h1 =>
      cases h
      apply justified₂ site rfl (inScope_of_immediate rfl) rfl
      intro env hview
      have hargs := site.closed.producer_args harg hp rfl
      have hsum : read env (P.arg i 0) =
          .u32x2 (lhs + rhs) (if lhs.toNat + rhs.toNat < 2 ^ 32 then 0 else 1) := by
        apply hview.producer_value site.ssa harg hp rfl
        show eval .iAddCarry32 [read env (P.instArg p 0), read env (P.instArg p 1)] = _
        rw [← hview.arg_read site.ssa site.closed hargs 0,
          ← hview.arg_read site.ssa site.closed hargs 1, h0, h1]
        rfl
      rw [hsum, hindex]
      have hcarry := carry_eq lhs rhs
      rcases hcomponent with rfl | rfl
      · exact congrArg (some ∘ u32) hcarry.1.symm
      · exact congrArg (some ∘ u32) hcarry.2.symm
    · nomatch h
  · unfold extractUnpacked at h
    split at h
    next packed h0 =>
      cases h
      apply justified₂ site rfl (inScope_of_immediate rfl) rfl
      intro env hview
      have hargs := site.closed.producer_args harg hp rfl
      have hpair : read env (P.arg i 0) =
          .u32x2 (packed.extractLsb' 0 32) (packed.extractLsb' 32 32) := by
        apply hview.producer_value site.ssa harg hp rfl
        show eval .unpackUint2x32 [read env (P.instArg p 0)] = _
        rw [← hview.arg_read site.ssa site.closed hargs 0, h0]
        rfl
      rw [hpair, hindex]
      rcases hcomponent with rfl | rfl
      · rfl
      · rfl
    · nomatch h

theorem foldCompositeExtractU32x4_justified (site : P.Site types A i .compositeExtractU32x4)
    (h : P.foldCompositeExtract i .compositeConstructU32x4 4 = some value) :
    P.Justified types A i value := by
  obtain ⟨index, hindex, hlt, h⟩ := foldCompositeExtract_cases h
  have hcomposite : valueType types (P.arg i 0) = .u32x4 := (site.arg_types₂ rfl).1
  rcases h with ⟨p, hp, rfl⟩ | ⟨p, hp, _, h⟩ | ⟨p, hp, _, h⟩
  · apply constructed_justified site rfl rfl rfl hindex hlt hp
    intro words
    refine ⟨.u32x4 (words 0) (words 1) (words 2) (words 3), rfl, ?_⟩
    have hcomponent : index.toNat = 0 ∨ index.toNat = 1 ∨ index.toNat = 2 ∨ index.toNat = 3 := by
      omega
    show component (.u32x4 (words 0) (words 1) (words 2) (words 3)) index.toNat =
      some (.u32 (words index.toNat))
    rcases hcomponent with h | h | h | h
    · rw [h]; rfl
    · rw [h]; rfl
    · rw [h]; rfl
    · rw [h]; rfl
  -- the other two producers make vectors of two components
  · nomatch hcomposite.symm.trans (site.ssa.producer_type hp rfl)
  · nomatch hcomposite.symm.trans (site.ssa.producer_type hp rfl)

theorem foldPackUint2x32_justified (site : P.Site types A i .packUint2x32)
    (h : P.foldPackUint2x32 i = some value) : P.Justified types A i value := by
  have harg := site.scope 0
  unfold foldPackUint2x32 at h
  simp only at h
  split at h
  next p hp =>
    have hreverse : P.foldReverse i .unpackUint2x32 = some value := by
      rw [foldReverse, hp]
      exact h
    apply foldReverse_justified site rfl rfl rfl _ hreverse
    intro v hv
    obtain ⟨a, rfl⟩ := of_u64 hv
    exact ⟨_, rfl, congrArg (some ∘ u64) extractLsb'_append_extractLsb'⟩
  · obtain ⟨p, hp, h⟩ := bind_eq_some_iff.mp h
    unfold packImmediates at h
    split at h
    next low high h0 h1 =>
      cases h
      apply justified₁ site rfl (inScope_of_immediate rfl) rfl
      intro env hview
      have hargs := site.closed.producer_args harg hp rfl
      have hpair : read env (P.arg i 0) = .u32x2 low high := by
        apply hview.producer_value site.ssa harg hp rfl
        show eval .compositeConstructU32x2 [read env (P.instArg p 0), read env (P.instArg p 1)] = _
        rw [← hview.arg_read site.ssa site.closed hargs 0,
          ← hview.arg_read site.ssa site.closed hargs 1, h0, h1]
        rfl
      rw [hpair]
      exact congrArg (some ∘ u64) (pack_eq low high).symm
    · nomatch h

/-! ### Bit fields -/

theorem foldBitFieldInsert_justified (site : P.Site types A i .bitFieldInsert)
    (h : P.foldBitFieldInsert i = some value) : P.Justified types A i value := by
  unfold foldBitFieldInsert at h
  split at h
  next base insert offset count h0 h1 h2 h3 =>
    split at h
    · have hle : offset.toNat + count.toNat ≤ 32 := by omega
      have hbits : ∀ bits, bits = ofBits (fun k =>
            if offset.toNat ≤ k ∧ k < offset.toNat + count.toNat then
              insert.getLsbD (k - offset.toNat)
            else base.getLsbD k) →
          P.Justified types A i (.u32 bits) := by
        rintro bits rfl
        apply site.justified rfl (inScope_of_immediate rfl) rfl
        intro env _ _
        show eval .bitFieldInsert [read env (P.arg i 0), read env (P.arg i 1),
          read env (P.arg i 2), read env (P.arg i 3)] = _
        rw [h0, h1, h2, h3]
        exact if_pos hle
      split at h
      · -- an empty field leaves the base as it is
        rename_i hcount
        cases h
        have hzero : count.toNat = 0 := congrArg BitVec.toNat hcount
        apply hbits
        rw [hzero]
        exact insert_empty base insert offset.toNat
      · cases h
        apply hbits
        rw [← insert_eq hle]
        simp only [← toNat_inj]
        rfl
    · nomatch h
  · nomatch h

theorem foldBitFieldExtract_justified {is_signed : Bool} (site : P.Site types A i op)
    (ht : op.argTypes = some [.u32, .u32, .u32]) (htype : op.typeOf = .u32)
    (heval : ∀ a offset count : BitVec 32, offset.toNat + count.toNat ≤ 32 →
      eval op [.u32 a, .u32 offset, .u32 count] =
        some (.u32 (if is_signed = false then (a.extractLsb' offset.toNat count.toNat).setWidth 32
          else (a.extractLsb' offset.toNat count.toNat).signExtend 32)))
    (h : P.foldBitFieldExtract i is_signed = some value) : P.Justified types A i value := by
  unfold foldBitFieldExtract at h
  split at h
  next a offset count h0 h1 h2 =>
    split at h
    · nomatch h
    have hle : offset.toNat + count.toNat ≤ 32 := by omega
    have hbits : ∀ bits,
        bits = (if is_signed = false then (a.extractLsb' offset.toNat count.toNat).setWidth 32
          else (a.extractLsb' offset.toNat count.toNat).signExtend 32) →
        P.Justified types A i (.u32 bits) := by
      rintro bits rfl
      refine justified₃ site ht (inScope_of_immediate rfl) htype.symm fun env _ => ?_
      rw [h0, h1, h2]
      exact heval a offset count hle
    split at h
    next hcount =>
      cases h
      have hzero : count.toNat = 0 := congrArg BitVec.toNat hcount
      apply hbits
      rw [hzero, ← (extract_empty a offset.toNat).1, ← (extract_empty a offset.toNat).2, ite_self]
    rename_i hcount
    split at h
    next hunsigned =>
      cases h
      apply hbits
      rw [if_pos hunsigned, ← uExtract_eq hle]
      simp only [← toNat_inj]
      rfl
    next hsigned =>
      cases h
      apply hbits
      rw [if_neg hsigned]
      exact sExtract_eq hle fun hzero => hcount (eq_of_toNat_eq hzero)
  · nomatch h

/-! ### Arithmetic and logic -/

theorem foldUDiv32_justified (site : P.Site types A i .uDiv32)
    (h : P.foldUDiv32 i = some value) : P.Justified types A i value := by
  have htypes := site.arg_types₂ rfl
  unfold foldUDiv32 at h
  split at h
  next rhs h1 =>
    split at h
    next hone =>
      cases h
      apply justified₂ site rfl (site.scope 0) htypes.1
      intro env hview
      obtain ⟨a, ha⟩ := of_u32 ((hview.read_type (site.scope 0)).trans htypes.1)
      rw [ha, h1, hone]
      show some (u32 (BitVec.ofNat 32 (a.toNat / 1))) = some (.u32 a)
      rw [Nat.div_one, ofNat_toNat, setWidth_eq]
    · split at h
      next hzero =>
        unfold foldU32 at h
        split at h
        next a b h0 h1' =>
          cases h1.symm.trans h1'
          cases h
          apply justified_pair site rfl h0 h1 rfl rfl
          intro env
          show (if rhs = 0 then none else some (u32 (BitVec.ofNat 32 (a.toNat / rhs.toNat)))) =
            some (.u32 (a / rhs))
          rw [if_neg hzero, udiv_def]
        · nomatch h
      · nomatch h
  · nomatch h

theorem foldIAbs32_justified (site : P.Site types A i .iAbs32)
    (h : P.foldIAbs32 i = some value) : P.Justified types A i value := by
  unfold foldIAbs32 at h
  split at h
  next a h0 =>
    cases h
    apply justified_single site rfl h0 rfl rfl
    intro env
    show some (u32 (if a.toInt < 0 then -a else a)) = some (.u32 _)
    have hneg : 0 - a = -a := zero_sub a
    simp only [sign_bit, hneg]
  · nomatch h

theorem foldBitCount32_justified (site : P.Site types A i .bitCount32)
    (h : P.foldBitCount32 i = some value) : P.Justified types A i value := by
  unfold foldBitCount32 at h
  split at h
  next a h0 =>
    cases h
    exact justified_single site rfl h0 rfl rfl fun _ => rfl
  · nomatch h

theorem foldBitCount64_justified (site : P.Site types A i .bitCount64)
    (h : P.foldBitCount64 i = some value) : P.Justified types A i value := by
  unfold foldBitCount64 at h
  split at h
  next a h0 =>
    cases h
    exact justified_single site rfl h0 rfl rfl fun _ => rfl
  · nomatch h

theorem foldBitwiseNot32_justified (site : P.Site types A i .bitwiseNot32)
    (h : P.foldBitwiseNot32 i = some value) : P.Justified types A i value := by
  unfold foldBitwiseNot32 at h
  split at h
  next a h0 =>
    cases h
    exact justified_single site rfl h0 rfl rfl fun _ => rfl
  · apply foldReverse_justified site rfl rfl rfl _ h
    intro v hv
    obtain ⟨a, rfl⟩ := of_u32 hv
    exact ⟨_, rfl, congrArg (some ∘ u32) (not_not)⟩

theorem foldLogicalNot_justified (site : P.Site types A i .logicalNot)
    (h : P.foldLogicalNot i = some value) : P.Justified types A i value := by
  unfold foldLogicalNot at h
  split at h
  next a h0 =>
    cases h
    exact justified_single site rfl h0 rfl rfl fun _ => rfl
  · apply foldReverse_justified site rfl rfl rfl _ h
    intro v hv
    obtain ⟨a, rfl⟩ := of_u1 hv
    exact ⟨_, rfl, congrArg (some ∘ u1) (Bool.not_not a)⟩

theorem foldAndIdentity_justified (site : P.Site types A i .logicalAnd)
    (h : P.foldAndIdentity i = some value) : P.Justified types A i value := by
  unfold foldAndIdentity at h
  split at h
  next lhs h0 =>
    cases h
    exact foldUnit_justified site true rfl rfl (fun _ _ => rfl) Bool.and_comm Bool.and_true
      (by cases lhs <;> simp) (.inl ⟨h0, rfl⟩)
  next rhs h1 hne =>
    cases h
    exact foldUnit_justified site true rfl rfl (fun _ _ => rfl) Bool.and_comm Bool.and_true
      (by cases rhs <;> simp) (.inr ⟨h1, rfl⟩)
  · nomatch h

theorem foldOrIdentity_justified (site : P.Site types A i .logicalOr)
    (h : P.foldOrIdentity i = some value) : P.Justified types A i value := by
  unfold foldOrIdentity at h
  split at h
  next lhs h0 =>
    cases h
    have hunit := foldUnit_justified site false rfl rfl (fun _ _ => rfl) Bool.or_comm
      Bool.or_false (by cases lhs <;> simp) (.inl ⟨h0, rfl⟩)
    cases lhs <;> exact hunit
  next rhs h1 hne =>
    cases h
    have hunit := foldUnit_justified site false rfl rfl (fun _ _ => rfl) Bool.or_comm
      Bool.or_false (by cases rhs <;> simp) (.inr ⟨h1, rfl⟩)
    cases rhs <;> exact hunit
  · nomatch h

end Bodies

/-! ## All opcodes -/

section Opcodes

/-- **The value that an instruction other than a `Phi` is folded to is its result**, if what
a pair of conversions drops is not needed. -/
theorem foldInstruction_justified (hssa : P.Ssa types) (hclosed : P.Closed A)
    (hin : P.ArgsIn A i) (hphi : (P.insts i).opcode ≠ .phi)
    (h : P.foldInstruction i = some value) : P.Justified types A i value := by
  obtain ⟨op, hop⟩ : ∃ op, (P.insts i).opcode = op := ⟨_, rfl⟩
  have site : P.Site types A i op := ⟨hssa, hclosed, hin, hop⟩
  unfold foldInstruction at h
  rw [hop] at h hphi
  cases op with
  | phi => exact absurd rfl hphi
  | identity | compositeConstructU32x2 | compositeConstructU32x4 | iAddCarry32 => nomatch h
  | bitCastU16F16 =>
    refine foldBitCast_justified site rfl rfl rfl (fun v hv => ?_) h
    obtain ⟨a, rfl⟩ := of_u16 hv
    exact ⟨_, rfl, rfl⟩
  | bitCastF16U16 =>
    refine foldBitCast_justified site rfl rfl rfl (fun v hv => ?_) h
    obtain ⟨a, rfl⟩ := of_f16 hv
    exact ⟨_, rfl, rfl⟩
  | bitCastU32F32 =>
    refine foldBitCast_justified site rfl rfl rfl (fun v hv => ?_) h
    obtain ⟨a, rfl⟩ := of_u32 hv
    exact ⟨_, rfl, rfl⟩
  | bitCastF32U32 =>
    refine foldBitCast_justified site rfl rfl rfl (fun v hv => ?_) h
    obtain ⟨a, rfl⟩ := of_f32 hv
    exact ⟨_, rfl, rfl⟩
  | convertU16U32 => exact foldConvertU16U32_justified site h
  | convertU32U16 => exact foldConvertU32U16_justified site h
  | convertU8U32 => exact foldConvertU8U32_justified site h
  | convertU32U8 => exact foldConvertU32U8_justified site h
  | compositeExtractU32x2 => exact foldCompositeExtractU32x2_justified site h
  | compositeExtractU32x4 => exact foldCompositeExtractU32x4_justified site h
  | packUint2x32 => exact foldPackUint2x32_justified site h
  | unpackUint2x32 =>
    refine foldReverse_justified site rfl rfl rfl (fun v hv => ?_) h
    obtain ⟨x, y, rfl⟩ := of_u32x2 hv
    have hpair := unpack_pack x y
    exact ⟨_, rfl, congrArg some (congrArg₂ u32x2 hpair.1 hpair.2)⟩
  | bitFieldInsert => exact foldBitFieldInsert_justified site h
  | bitFieldUExtract | bitFieldSExtract =>
    refine foldBitFieldExtract_justified site rfl rfl (fun a offset count hle => ?_) h
    exact if_pos hle
  | selectU1 | selectU32 | selectF32 => exact foldSelect_justified site rfl rfl (fun _ => rfl) h
  | iAdd32 =>
    exact foldIdentity_justified site rfl (P.folds_u32 i _) rfl (fun _ _ => rfl) zero_add add_zero h
  | iAdd64 =>
    exact foldIdentity_justified site rfl (P.folds_u64 i _) rfl (fun _ _ => rfl) zero_add add_zero h
  | iSub32 => exact foldSub_justified site rfl (P.folds_u32 i _) rfl (fun _ _ => rfl) sub_zero h
  | iSub64 => exact foldSub_justified site rfl (P.folds_u64 i _) rfl (fun _ _ => rfl) sub_zero h
  | iMul32 =>
    exact foldIdentity_justified site rfl (P.folds_u32 i _) rfl (fun _ _ => rfl) one_mul mul_one h
  | iMul64 =>
    exact foldIdentity_justified site rfl (P.folds_u64 i _) rfl (fun _ _ => rfl) one_mul mul_one h
  | uDiv32 => exact foldUDiv32_justified site h
  | sMulHi =>
    exact folds_justified site (P.folds_u32 i _) rfl rfl
      (fun a b => congrArg (some ∘ u32) (sMulHi_eq a b).symm) h
  | uMulHi =>
    exact folds_justified site (P.folds_u32 i _) rfl rfl
      (fun a b => congrArg (some ∘ u32) (uMulHi_eq a b).symm) h
  | iAbs32 => exact foldIAbs32_justified site h
  | shiftLeftLogical32 =>
    exact foldShift_justified site rfl (P.folds_u32 i _) rfl
      (fun _ _ => by rw [mask_31]; rfl)
      shiftLeft_zero h
  | shiftLeftLogical64 =>
    exact foldShift_justified site rfl (P.folds_u64Shift i _) rfl
      (fun _ _ => by rw [mask_63]; rfl)
      shiftLeft_zero h
  | shiftRightLogical32 =>
    exact foldShift_justified site rfl (P.folds_u32 i _) rfl
      (fun _ _ => by rw [mask_31]; rfl)
      ushiftRight_zero h
  | shiftRightLogical64 =>
    exact foldShift_justified site rfl (P.folds_u64Shift i _) rfl
      (fun _ _ => by rw [mask_63]; rfl)
      ushiftRight_zero h
  | shiftRightArithmetic32 =>
    refine folds_justified site (P.folds_u32 i _) rfl rfl (fun a b => ?_) h
    rw [mask_31]
    rfl
  | shiftRightArithmetic64 =>
    refine folds_justified site (P.folds_u64Shift i _) rfl rfl (fun a b => ?_) h
    rw [mask_63]
    rfl
  | bitwiseAnd32 =>
    exact foldIdentity_justified site rfl (P.folds_u32 i _) rfl (fun _ _ => rfl)
      (fun _ => allOnes_and) (fun _ => and_allOnes) h
  | bitwiseAnd64 =>
    exact foldIdentity_justified site rfl (P.folds_u64 i _) rfl (fun _ _ => rfl)
      (fun _ => allOnes_and) (fun _ => and_allOnes) h
  | bitwiseOr32 =>
    exact foldIdentity_justified site rfl (P.folds_u32 i _) rfl (fun _ _ => rfl)
      (fun _ => zero_or) (fun _ => or_zero) h
  | bitwiseOr64 =>
    exact foldIdentity_justified site rfl (P.folds_u64 i _) rfl (fun _ _ => rfl)
      (fun _ => zero_or) (fun _ => or_zero) h
  | bitwiseXor32 =>
    exact foldIdentity_justified site rfl (P.folds_u32 i _) rfl (fun _ _ => rfl)
      (fun _ => zero_xor) (fun _ => xor_zero) h
  | bitwiseNot32 => exact foldBitwiseNot32_justified site h
  | bitCount32 => exact foldBitCount32_justified site h
  | bitCount64 => exact foldBitCount64_justified site h
  | sMin32 =>
    exact folds_justified site (P.folds_u32 i _) rfl rfl
      (fun a b => congrArg (some ∘ u32) (sMin_eq a b).symm) h
  | uMin32 =>
    exact folds_justified site (P.folds_u32 i _) rfl rfl
      (fun a b => congrArg (some ∘ u32) (uMin_eq a b).symm) h
  | sMax32 =>
    exact folds_justified site (P.folds_u32 i _) rfl rfl
      (fun a b => congrArg (some ∘ u32) (sMax_eq a b).symm) h
  | uMax32 =>
    exact folds_justified site (P.folds_u32 i _) rfl rfl
      (fun a b => congrArg (some ∘ u32) (uMax_eq a b).symm) h
  | iEqual32 =>
    exact folds_justified site (P.folds_u32Compare i _) rfl rfl
      (fun a b => congrArg (some ∘ u1) (beq_eq_decide a b).symm) h
  | iEqual64 =>
    exact folds_justified site (P.folds_u64Compare i _) rfl rfl
      (fun a b => congrArg (some ∘ u1) (beq_eq_decide a b).symm) h
  | iNotEqual32 =>
    exact folds_justified site (P.folds_u32Compare i _) rfl rfl
      (fun a b => congrArg (some ∘ u1) (bne_decide a b).symm) h
  | iNotEqual64 =>
    exact folds_justified site (P.folds_u64Compare i _) rfl rfl
      (fun a b => congrArg (some ∘ u1) (bne_decide a b).symm) h
  | sLessThan32 | uLessThan32 | sLessThanEqual32 | uLessThanEqual32 | sGreaterThan32
  | uGreaterThan32 | sGreaterThanEqual32 | uGreaterThanEqual32 =>
    exact folds_justified site (P.folds_u32Compare i _) rfl rfl (fun _ _ => rfl) h
  | sLessThan64 | uLessThan64 | sLessThanEqual64 | uLessThanEqual64 | sGreaterThan64
  | uGreaterThan64 | sGreaterThanEqual64 | uGreaterThanEqual64 =>
    exact folds_justified site (P.folds_u64Compare i _) rfl rfl (fun _ _ => rfl) h
  | logicalOr =>
    exact or_justified h (folds_justified site (P.folds_logical i _) rfl rfl (fun _ _ => rfl))
      (foldOrIdentity_justified site)
  | logicalAnd =>
    exact or_justified h (folds_justified site (P.folds_logical i _) rfl rfl (fun _ _ => rfl))
      (foldAndIdentity_justified site)
  | logicalXor =>
    exact foldIdentity_justified site rfl (P.folds_logical i _) rfl
      (fun a b => congrArg (some ∘ u1) (congrFun₂ Bool.bne_eq_xor a b).symm)
      Bool.false_bne Bool.bne_false h
  | logicalNot => exact foldLogicalNot_justified site h
  | other index type => nomatch h

/-! ### The pairs that lose bits -/

variable {x : Value}

theorem narrowing_cases (h : P.narrowing i = some (bits, x)) :
    (∃ p, (P.insts i).opcode = .convertU32U16 ∧ P.producer (P.arg i 0) .convertU16U32 = some p ∧
      bits = 16 ∧ x = P.instArg p 0) ∨
    (∃ p, (P.insts i).opcode = .convertU32U8 ∧ P.producer (P.arg i 0) .convertU8U32 = some p ∧
      bits = 8 ∧ x = P.instArg p 0) := by
  unfold narrowing at h
  split at h
  · obtain ⟨p, hp, heq⟩ := map_eq_some_iff.mp h
    cases heq
    exact .inl ⟨p, ‹_›, hp, rfl, rfl⟩
  · obtain ⟨p, hp, heq⟩ := map_eq_some_iff.mp h
    cases heq
    exact .inr ⟨p, ‹_›, hp, rfl, rfl⟩
  · nomatch h

theorem foldInstruction_of_narrowing
    (h : P.narrowing i = some (bits, x)) : P.foldInstruction i = some x := by
  rcases narrowing_cases h with ⟨p, hop, hp, rfl, rfl⟩ | ⟨p, hop, hp, rfl, rfl⟩
  · have harg := (producer_eq_some hp).1
    rw [foldInstruction, hop]
    simp only [foldOpcode, foldConvertU32U16]
    rw [harg] at hp ⊢
    simp [hp]
  · have harg := (producer_eq_some hp).1
    rw [foldInstruction, hop]
    simp only [foldOpcode, foldConvertU32U8]
    rw [harg] at hp ⊢
    simp [hp]

theorem narrowing_result (hssa : P.Ssa types) (hclosed : P.Closed A) (hin : P.ArgsIn A i)
    (hview : P.View types A env) (h : P.narrowing i = some (bits, x)) :
    ∃ a, read env x = .u32 a ∧
      eval (P.insts i).opcode ((P.insts i).args.map (read env)) =
        some (.u32 (BitVec.ofNat 32 (a.toNat % 2 ^ bits))) := by
  rcases narrowing_cases h with ⟨p, hop, hp, rfl, rfl⟩ | ⟨p, hop, hp, rfl, rfl⟩
  · exact widen_narrow ⟨hssa, hclosed, hin, hop⟩ rfl rfl hp widen_narrow_16 hview
  · exact widen_narrow ⟨hssa, hclosed, hin, hop⟩ rfl rfl hp widen_narrow_8 hview

end Opcodes

end Program

end MagnusPS5.Shader
