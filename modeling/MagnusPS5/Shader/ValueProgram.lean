/-
`EquivalentValue` and `ResolveInvariantPhi` (`ValueProgram.cpp`).

Both follow arguments back through the program and take what they have met before for
granted: `EquivalentValue` a pair of instructions that is being compared,
`ResolveInvariantPhi` a `Phi` that has been expanded. The recursion and the worklist are
counted by fuel; `equivalentValueIn_isSome` and `resolveInvariantIn_isSome` say that the
fuel they start with is enough.
-/
import MagnusPS5.Lib.ValueExpression
import MagnusPS5.Shader.ValueSemantics

namespace MagnusPS5.Shader

open Lib List

/-- `LoadAddressU32`, by its place in the table of opcodes. -/
def ValueOpcode.loadAddressU32 : ValueOpcode := .other 195 .u32

/-- `ReadConstBuffer`, by its place in the table of opcodes. -/
def ValueOpcode.readConstBuffer : ValueOpcode := .other 192 .u32

def isRuntimeRead (opcode : ValueOpcode) : Bool :=
  opcode = .loadAddressU32 ∨ opcode = .readConstBuffer

/-- The type that the flags of a `Phi` hold. -/
def IRType.ofFlags (flags : BitVec 64) : IRType :=
  match flags.toNat % 2 ^ 32 with
  | 0 => .void
  | 2 => .scalarReg
  | 4 => .vectorReg
  | 8 => .u1
  | 16 => .u8
  | 32 => .u16
  | 64 => .u32
  | 128 => .u64
  | 256 => .f16
  | 512 => .f32
  | 1024 => .u32x2
  | 4096 => .u32x4
  | kind => .other kind

/-- `ValueProgram`: a program, with the flags of its instructions and the table of memory
accesses that some of the flags point into. -/
structure ValueProgram (μ : Type*) extends Program where
  flags : ℕ → BitVec 64
  memory_info : List μ

/-- What an instruction does beside its opcode: its flags, or the access that they point to. -/
inductive Attributes (μ : Type*)
  | flags (bits : BitVec 64)
  | memory (info : Option μ)

namespace ValueProgram

variable {μ : Type*} (P : ValueProgram μ)

def memoryIndex (i : ℕ) : ℕ := (P.flags i).toNat % 2 ^ 32

def attributes (i : ℕ) : Attributes μ :=
  if isRuntimeRead (P.insts i).opcode then .memory P.memory_info[P.memoryIndex i]?
  else .flags (P.flags i)

/-- `Inst::GetType`, of an instruction that is no `Identity`. -/
def instType (i : ℕ) : IRType :=
  if (P.insts i).opcode = .phi then .ofFlags (P.flags i) else (P.insts i).opcode.typeOf

def getType (value : Value) : IRType := Program.valueType P.instType (P.resolve value)

/-! ## `EquivalentValue` -/

section Equivalence

variable [DecidableEq μ]

/-- Two instructions of one opcode have the same flags, or the same access. -/
def sameAttributes (lhs rhs : ℕ) : Bool :=
  if isRuntimeRead (P.insts lhs).opcode then
    match P.memory_info[P.memoryIndex lhs]?, P.memory_info[P.memoryIndex rhs]? with
    | some li, some ri => decide (li = ri)
    | _, _ => false
  else P.flags lhs = P.flags rhs

/-- The arguments of two instructions, side by side, and whether those of a `Phi` are for the
same block. -/
def argPairs (lhs rhs : ℕ) : List (Bool × Value × Value) :=
  (List.range (P.insts lhs).args.length).map fun index =>
    (decide ((P.insts lhs).opcode = .phi →
        (P.insts lhs).phi_blocks.getD index 0 = (P.insts rhs).phi_blocks.getD index 0),
      P.instArg lhs index, P.instArg rhs index)

/-- The loop of `EquivalentValue` over the arguments. -/
def equivalentArgs (equivalent : Value → Value → List (ℕ × ℕ) → Option (Bool × List (ℕ × ℕ))) :
    List (Bool × Value × Value) → List (ℕ × ℕ) → Option (Bool × List (ℕ × ℕ))
  | [], visited => some (true, visited)
  | (same_block, left, right) :: rest, visited =>
    if same_block then
      match equivalent left right visited with
      | some (true, visited) => equivalentArgs equivalent rest visited
      | result => result
    else some (false, visited)

/-- `EquivalentValue`, with the pairs visited so far. -/
def equivalentValueIn : ℕ → Value → Value → List (ℕ × ℕ) → Option (Bool × List (ℕ × ℕ))
  | 0, _, _, _ => none
  | fuel + 1, left, right, visited =>
    if P.resolve left = P.resolve right then some (true, visited)
    else
      match P.resolve left, P.resolve right with
      | .inst lhs, .inst rhs =>
        if P.getType (.inst lhs) ≠ P.getType (.inst rhs) ∨
            (P.insts lhs).opcode ≠ (P.insts rhs).opcode ∨
            (P.insts lhs).args.length ≠ (P.insts rhs).args.length then
          some (false, visited)
        else if (lhs, rhs) ∈ visited then some (true, visited)
        else if P.sameAttributes lhs rhs then
          equivalentArgs (equivalentValueIn fuel) (P.argPairs lhs rhs)
            (visited ++ [(lhs, rhs)])
        else some (false, visited ++ [(lhs, rhs)])
      | _, _ => some (false, visited)

/-- The instructions of the program. -/
def ids : List ℕ := P.blocks.flatten

def equivalentValue (left right : Value) : Bool :=
  ((P.equivalentValueIn (P.ids.length * P.ids.length + 1) left right []).map Prod.fst).getD false

/-! ## `ResolveInvariantPhi` -/

/-- The instruction, if the value is the result of a `Phi`. -/
def phiOf : Value → Option ℕ
  | .inst id => if (P.insts id).opcode = .phi then some id else none
  | _ => none

/-- The loop of `ResolveInvariantPhi`. -/
def resolveInvariantIn : ℕ → List Value → List ℕ → Value → Option Value
  | _, [], _, invariant => some invariant
  | 0, _ :: _, _, _ => none
  | fuel + 1, value :: pending, visited, invariant =>
    match P.phiOf (P.resolve value) with
    | some phi =>
      if phi ∈ visited then resolveInvariantIn fuel pending visited invariant
      else
        resolveInvariantIn fuel ((P.insts phi).args.reverse ++ pending) (phi :: visited)
          invariant
    | none =>
      if invariant = .empty then
        resolveInvariantIn fuel pending visited (P.resolve value)
      else if P.equivalentValue invariant (P.resolve value) then
        resolveInvariantIn fuel pending visited invariant
      else some .empty

/-- How many arguments instructions have. -/
def argCount (insts : List ℕ) : ℕ := (insts.map fun i => (P.insts i).args.length).sum

def resolveInvariantPhi (value : Value) : Value :=
  match P.phiOf (P.resolve value) with
  | none => P.resolve value
  | some _ =>
    (P.resolveInvariantIn (P.argCount P.ids + 1) [P.resolve value] [] .empty).getD .empty

end Equivalence

/-! ## The fuel -/

section Fuel

variable {P}

/-- Instructions use instructions of the program alone. -/
def Attached (P : ValueProgram μ) : Prop :=
  ∀ i ∈ P.ids, ∀ y, .inst y ∈ (P.insts i).args → y ∈ P.ids

/-- No chain of `Identity`s comes back to where it began: some number falls along it. -/
def IdentitiesEnd (P : ValueProgram μ) : Prop :=
  ∃ rank : ℕ → ℕ, ∀ i ∈ P.ids, ∀ y, (P.insts i).opcode = .identity →
    P.instArg i 0 = .inst y → rank y < rank i

/-- The value is no detached instruction. -/
def ValueAttached (P : ValueProgram μ) (value : Value) : Prop := ∀ y, value = .inst y → y ∈ P.ids

theorem Attached.instArg (h : P.Attached) {i : ℕ} (hi : i ∈ P.ids) (index : ℕ) :
    P.ValueAttached (P.instArg i index) := by
  intro y hy
  unfold Program.instArg at hy
  rw [getD_eq_getElem?_getD] at hy
  cases harg : (P.insts i).args[index]? with
  | none =>
    rw [harg] at hy
    nomatch hy
  | some arg =>
    rw [harg, Option.getD_some] at hy
    exact h i hi y (hy ▸ mem_of_getElem? harg)

theorem Attached.resolveIn (h : P.Attached) (fuel : ℕ) {value : Value}
    (hvalue : P.ValueAttached value) : P.ValueAttached (P.resolveIn fuel value) := by
  induction fuel generalizing value with
  | zero => exact hvalue
  | succ fuel ih =>
    cases value with
    | inst id =>
      simp only [Program.resolveIn]
      split
      · exact ih (h.instArg (hvalue id rfl) 0)
      · exact hvalue
    | _ => exact hvalue

theorem Attached.resolve (h : P.Attached) {value : Value} (hvalue : P.ValueAttached value) :
    P.ValueAttached (P.resolve value) := h.resolveIn _ hvalue

/-- The identities that have been followed are different instructions, so that there is fuel as
long as there are others. -/
theorem Attached.resolveIn_ends (h : P.Attached) {rank : ℕ → ℕ}
    (hrank : ∀ i ∈ P.ids, ∀ y, (P.insts i).opcode = .identity → P.instArg i 0 = .inst y →
      rank y < rank i) (fuel : ℕ) {value : Value} (hvalue : P.ValueAttached value) {seen : List ℕ}
    (hnodup : seen.Nodup) (hmem : seen ⊆ P.ids)
    (hbelow : ∀ i, value = .inst i → ∀ j ∈ seen, rank i < rank j)
    (hfuel : P.ids.length ≤ fuel + seen.length) (i : ℕ) (hi : P.resolveIn fuel value = .inst i) :
    (P.insts i).opcode ≠ .identity := by
  induction fuel generalizing value seen with
  | zero =>
    have hvi : value = .inst i := by
      unfold Program.resolveIn at hi
      exact hi
    -- the instruction would be one more
    have hnew : i ∉ seen := fun hin => lt_irrefl _ (hbelow i hvi i hin)
    have hsub : i :: seen ⊆ P.ids := cons_subset.mpr ⟨hvalue i hvi, hmem⟩
    have hle := (subperm_of_subset (nodup_cons.mpr ⟨hnew, hnodup⟩) hsub).length_le
    rw [length_cons] at hle
    omega
  | succ fuel ih =>
    cases value with
    | inst id =>
      simp only [Program.resolveIn] at hi
      split at hi
      next hid =>
        have hin := hvalue id rfl
        have hnew : id ∉ seen := fun hseen => lt_irrefl _ (hbelow id rfl id hseen)
        refine ih (h.instArg hin 0) (nodup_cons.mpr ⟨hnew, hnodup⟩) (cons_subset.mpr ⟨hin, hmem⟩)
          (fun y hy j hj => ?_) (by rw [length_cons]; omega) hi
        have hlt := hrank id hin y hid hy
        rcases mem_cons.mp hj with rfl | hj
        · exact hlt
        · exact hlt.trans (hbelow id rfl j hj)
      next hid =>
        cases hi
        exact hid
    | _ => nomatch hi

/-- The pairs visited are different pairs of instructions of the program. -/
structure PairsOf (P : ValueProgram μ) (visited : List (ℕ × ℕ)) : Prop where
  nodup : visited.Nodup
  mem : ∀ pair ∈ visited, pair.1 ∈ P.ids ∧ pair.2 ∈ P.ids

theorem PairsOf.length_le {visited : List (ℕ × ℕ)} (h : P.PairsOf visited) :
    visited.length ≤ P.ids.length * P.ids.length := by
  have hsub : visited ⊆ P.ids ×ˢ P.ids := fun pair hp => mem_product.mpr (h.mem pair hp)
  calc visited.length ≤ (P.ids ×ˢ P.ids).length := (subperm_of_subset h.nodup hsub).length_le
    _ = P.ids.length * P.ids.length := length_product _ _

theorem equivalentArgs_isSome {bound : ℕ}
    {equivalent : Value → Value → List (ℕ × ℕ) → Option (Bool × List (ℕ × ℕ))}
    (hequivalent : ∀ left right visited, P.ValueAttached left → P.ValueAttached right →
      P.PairsOf visited → bound ≤ visited.length →
      ∃ answer visited', equivalent left right visited = some (answer, visited') ∧
        P.PairsOf visited' ∧ visited.length ≤ visited'.length) (pairs : List (Bool × Value × Value))
    (hpairs : ∀ pair ∈ pairs, P.ValueAttached pair.2.1 ∧ P.ValueAttached pair.2.2)
    {visited : List (ℕ × ℕ)} (hvisited : P.PairsOf visited) (hbound : bound ≤ visited.length) :
    ∃ answer visited', equivalentArgs equivalent pairs visited = some (answer, visited') ∧
      P.PairsOf visited' ∧ visited.length ≤ visited'.length := by
  induction pairs generalizing visited with
  | nil => exact ⟨true, visited, rfl, hvisited, le_rfl⟩
  | cons pair rest ih =>
    obtain ⟨same_block, left, right⟩ := pair
    cases same_block with
    | false => exact ⟨false, visited, rfl, hvisited, le_rfl⟩
    | true =>
      have hattached := hpairs _ mem_cons_self
      obtain ⟨answer, visited1, heq, h1, h2⟩ :=
        hequivalent left right visited hattached.1 hattached.2 hvisited hbound
      cases answer with
      | false => exact ⟨false, visited1, by simp [equivalentArgs, heq], h1, h2⟩
      | true =>
        obtain ⟨answer, visited', heq', h3, h4⟩ :=
          ih (fun p hp => hpairs p (.tail _ hp)) h1 (le_trans hbound h2)
        exact ⟨answer, visited', by simp [equivalentArgs, heq, heq'], h3, le_trans h2 h4⟩

variable [DecidableEq μ]

/-- **`EquivalentValue` answers**: each call on its stack has added a pair of its own. -/
theorem equivalentValueIn_isSome (h : P.Attached) (fuel : ℕ) (left right : Value)
    (visited : List (ℕ × ℕ)) (hleft : P.ValueAttached left) (hright : P.ValueAttached right)
    (hvisited : P.PairsOf visited) (hfuel : P.ids.length * P.ids.length < fuel + visited.length) :
    ∃ answer visited', P.equivalentValueIn fuel left right visited = some (answer, visited') ∧
      P.PairsOf visited' ∧ visited.length ≤ visited'.length := by
  induction fuel generalizing left right visited with
  | zero =>
    have hle := hvisited.length_le
    omega
  | succ fuel ih =>
    unfold equivalentValueIn
    split
    · exact ⟨true, visited, rfl, hvisited, le_rfl⟩
    split
    next lhs rhs hlhs hrhs =>
      have hlhs' : lhs ∈ P.ids := h.resolve hleft lhs hlhs
      have hrhs' : rhs ∈ P.ids := h.resolve hright rhs hrhs
      split
      · exact ⟨false, visited, rfl, hvisited, le_rfl⟩
      split
      · exact ⟨true, visited, rfl, hvisited, le_rfl⟩
      rename_i hnew
      have hvisited' : P.PairsOf (visited ++ [(lhs, rhs)]) := by
        refine ⟨nodup_append.mpr ⟨hvisited.nodup, by simp, ?_⟩, ?_⟩
        · rintro pair hp _ hq rfl
          exact hnew (mem_singleton.mp hq ▸ hp)
        · intro pair hp
          rcases mem_append.mp hp with hp | hp
          · exact hvisited.mem pair hp
          · rw [mem_singleton.mp hp]
            exact ⟨hlhs', hrhs'⟩
      have hlength : (visited ++ [(lhs, rhs)]).length = visited.length + 1 := by simp
      split
      · obtain ⟨answer, visited', heq, h1, h2⟩ :=
          equivalentArgs_isSome (P := P)
            (fun left right visited1 hl hr hv hb =>
              ih left right visited1 hl hr hv (by omega))
            (P.argPairs lhs rhs) (fun pair hp => by
              obtain ⟨index, _, rfl⟩ := mem_map.mp hp
              exact ⟨h.instArg hlhs' index, h.instArg hrhs' index⟩)
            hvisited' (Nat.le_of_eq hlength.symm)
        exact ⟨answer, visited', heq, h1, by omega⟩
      · exact ⟨false, _, rfl, hvisited', by omega⟩
    · exact ⟨false, visited, rfl, hvisited, le_rfl⟩

omit [DecidableEq μ] in
theorem argCount_le {visited : List ℕ} (hnodup : visited.Nodup) (hmem : ∀ i ∈ visited, i ∈ P.ids) :
    P.argCount visited ≤ P.argCount P.ids := by
  obtain ⟨insts, hperm, hsub⟩ := subperm_of_subset hnodup hmem
  calc P.argCount visited = P.argCount insts := ((hperm.map _).sum_eq).symm
    _ ≤ P.argCount P.ids := (hsub.map _).sum_le_sum fun _ _ => Nat.zero_le _

/-- **`ResolveInvariantPhi` returns**: it expands each `Phi` once. -/
theorem resolveInvariantIn_isSome (h : P.Attached) (fuel : ℕ) (pending : List Value)
    (visited : List ℕ) (invariant : Value) (hpending : ∀ value ∈ pending, P.ValueAttached value)
    (hnodup : visited.Nodup) (hmem : ∀ i ∈ visited, i ∈ P.ids)
    (hfuel : pending.length + P.argCount P.ids ≤ fuel + P.argCount visited) :
    ∃ value, P.resolveInvariantIn fuel pending visited invariant = some value := by
  induction fuel generalizing pending visited invariant with
  | zero =>
    cases pending with
    | nil => exact ⟨invariant, rfl⟩
    | cons value pending =>
      have hle := argCount_le hnodup hmem
      rw [length_cons] at hfuel
      omega
  | succ fuel ih =>
    cases pending with
    | nil => exact ⟨invariant, rfl⟩
    | cons value pending =>
      have hrest (v : Value) (hv : v ∈ pending) := hpending v (.tail _ hv)
      rw [length_cons] at hfuel
      unfold resolveInvariantIn
      split
      next phi hphi =>
        split
        · exact ih _ _ _ hrest hnodup hmem (by omega)
        rename_i hnew
        have hid : phi ∈ P.ids := by
          unfold phiOf at hphi
          split at hphi
          next id hid =>
            obtain ⟨_, hphi⟩ := Option.ite_none_right_eq_some.mp hphi
            exact Option.some.inj hphi ▸ h.resolve (hpending value mem_cons_self) id hid
          · nomatch hphi
        refine ih _ _ _ ?_ (nodup_cons.mpr ⟨hnew, hnodup⟩) ?_ ?_
        · intro v hv
          rcases mem_append.mp hv with hv | hv
          · exact fun y hy => h phi hid y (hy ▸ mem_reverse.mp hv)
          · exact hrest v hv
        · exact forall_mem_cons.mpr ⟨hid, hmem⟩
        · simp only [length_append, length_reverse, argCount, map_cons, sum_cons] at hfuel ⊢
          omega
      · split
        · exact ih _ _ _ hrest hnodup hmem (by omega)
        split
        · exact ih _ _ _ hrest hnodup hmem (by omega)
        · exact ⟨.empty, rfl⟩

/-- **Both functions come back** on every program whose `Identity`s end, around loops of `Phi`s
too: `Value::Resolve` comes to a value that is none, and the fuel that the functions start with is
never used up. -/
theorem fuel_suffices (h : P.Attached) (hends : P.IdentitiesEnd) {left right : Value}
    (hleft : P.ValueAttached left) (hright : P.ValueAttached right) :
    (∀ value, P.ValueAttached value → ∀ i, P.resolve value = .inst i →
      (P.insts i).opcode ≠ .identity) ∧
    (∃ visited, P.equivalentValueIn (P.ids.length * P.ids.length + 1) left right [] =
      some (P.equivalentValue left right, visited)) ∧
    ∃ invariant, P.resolveInvariantIn (P.argCount P.ids + 1) [P.resolve left] [] .empty =
      some invariant := by
  refine ⟨fun value hvalue => ?_, ?_, ?_⟩
  · obtain ⟨rank, hrank⟩ := hends
    exact h.resolveIn_ends hrank _ hvalue nodup_nil (nil_subset _) (fun _ _ _ hj => nomatch hj)
      le_rfl
  · obtain ⟨answer, visited, heq, -⟩ := equivalentValueIn_isSome h
      (P.ids.length * P.ids.length + 1) left right [] hleft hright ⟨nodup_nil, by simp⟩ (by simp)
    refine ⟨visited, ?_⟩
    rw [equivalentValue, heq]
    rfl
  · -- one value is pending, and no `Phi` has been expanded
    apply resolveInvariantIn_isSome h _ _ _ _ ?_ nodup_nil (by simp)
    · simp [argCount, Nat.add_comm]
    · intro value hvalue
      rw [mem_singleton.mp hvalue]
      exact h.resolve hleft

/-- Two `Phi`s that take each other, and an `Identity` of the second one. -/
theorem fuel_suffices_ring : let ring : ValueProgram Unit := {
      insts := fun i =>
        if i = 2 then { opcode := .identity, args := [.inst 1] }
        else { opcode := .phi, args := [.inst 0, .inst 1], phi_blocks := [0, 0] }
      blocks := [[0, 1, 2]]
      predecessors := fun _ => [0, 0]
      flags := fun _ => 64
      memory_info := [] }
    ∃ visited, ring.equivalentValueIn 10 (.inst 0) (.inst 2) [] =
      some (ring.equivalentValue (.inst 0) (.inst 2), visited) := by
  intro ring
  have hattached (i : ℕ) (h : i ≤ 2) : ring.ValueAttached (.inst i) := by
    rintro y ⟨⟩
    simp only [ids, ring, flatten_singleton, mem_cons, not_mem_nil]
    omega
  have hargs : ring.Attached := by
    intro i _ y hy
    refine hattached y ?_ y rfl
    by_cases hi : i = 2 <;> simp [ring, hi] at hy <;> omega
  have hends : ring.IdentitiesEnd := by
    refine ⟨id, fun i _ y hid hy => ?_⟩
    by_cases hi : i = 2
    · subst hi
      cases hy
      decide
    · simp [ring, hi] at hid
  exact (fuel_suffices hargs hends (hattached 0 (by decide)) (hattached 2 (by decide))).2.1

end Fuel

end ValueProgram

end MagnusPS5.Shader
