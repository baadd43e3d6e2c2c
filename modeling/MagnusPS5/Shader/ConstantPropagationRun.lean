/-
The runs of a program before and after `constantPropagationPass`.

In every run, the instructions that are available at a place are a `View` of the
environment there (`Run.view`), so that what an instruction is folded to is its result
whenever it is executed. Then the program after the replacement has the same runs
(`Replaced.run_iff`), and so on through the pass.
-/
import MagnusPS5.Shader.ConstantPropagationRules

namespace MagnusPS5.Shader.Program

open Lib
open Function (update)
open Val Run Function List Option

variable {P : Program} {types : ℕ → IRType} {ω : Oracle} {s : RunState} {i : ℕ}

/-! ## Results -/

theorem argValues_of_ne (h : (P.insts i).opcode ≠ .phi) :
    P.argValues s i = (P.insts i).args.map (read s.env) := by
  unfold argValues
  split
  · exact absurd ‹_› h
  · rfl

variable {pred y b k : ℕ}

theorem argValues_phi (h : (P.insts i).opcode = .phi) (hpred : s.pred = some pred) :
    P.argValues s i = [read s.entry_env (phiOperand (P.insts i) pred)] := by
  unfold argValues
  rw [h, hpred]

theorem result_phi (h : (P.insts i).opcode = .phi) (hpred : s.pred = some pred) :
    P.result ω s i = read s.entry_env (phiOperand (P.insts i) pred) := by
  unfold result
  rw [h, argValues_phi h hpred]
  rfl

theorem result_identity (hssa : P.Ssa types) (h : (P.insts i).opcode = .identity) :
    P.result ω s i = read s.env (P.instArg i 0) := by
  have hphi : (P.insts i).opcode ≠ .phi := by simp [h]
  unfold result
  rw [h, argValues_of_ne hphi, (hssa.identity_arg h).1]
  rfl

theorem result_eval (hphi : (P.insts i).opcode ≠ .phi) (hidentity : (P.insts i).opcode ≠ .identity) :
    P.result ω s i = (eval (P.insts i).opcode ((P.insts i).args.map (read s.env))).getD
      (cast (P.insts i).opcode.typeOf
        (ω s.history i ((P.insts i).args.map (read s.env)))) := by
  rw [← argValues_of_ne hphi]
  unfold result
  split
  · exact absurd ‹_› hphi
  · exact absurd ‹_› hidentity
  · rfl

variable {value : Value} {env : Env} {Q : RunState → Prop} {op : ValueOpcode} {p : ℕ} {same : Value}

theorem read_congr {env' : Env} (h : ∀ y, value = .inst y → env y = env' y) :
    read env value = read env' value := by
  cases value with
  | inst y => exact h y rfl
  | _ => rfl

/-! ## Where a run comes from -/

/-- The block of a run is the entry, or the run has come from the end of another block. -/
structure Origin (P : Program) (ω : Oracle) (Q : RunState → Prop) (s : RunState) : Prop where
  entry : s.pred = none → s.block = 0
  arrived : ∀ p, s.pred = some p → ∃ s₀, P.Run ω s₀ ∧ Q s₀ ∧ s₀.block = p ∧
    s₀.position = (P.flow.code p).length ∧ s₀.env = s.entry_env ∧ P.flow.edge p s.block

theorem Run.rec_entry (hstart : Q runStart)
    (hstep : ∀ s i, P.Run ω s → P.flow.At i s.block s.position → Q s → P.Origin ω Q s →
      Q (P.execute ω s i)) (hjump : ∀ s c, P.Run ω s → s.position = (P.flow.code s.block).length →
      P.flow.edge s.block c → Q s → Q (enter s c)) (h : P.Run ω s) : Q s ∧ P.Origin ω Q s := by
  induction h with
  | start => exact ⟨hstart, fun _ => rfl, fun p hp => nomatch hp⟩
  | step h hi ih => exact ⟨hstep _ _ h hi ih.1 ih.2, ih.2.entry, ih.2.arrived⟩
  | @jump s c h hend hedge ih =>
    refine ⟨hjump _ _ h hend hedge ih.1, ⟨nofun, fun p hp => ?_⟩⟩
    cases hp
    exact ⟨s, h, ih.1, rfl, hend, rfl, hedge⟩

theorem Run.path (h : P.Run ω s) : P.flow.Path s.block s.position s.trace := by
  induction h with
  | start => exact .start
  | step h hi ih => exact .step ih hi
  | jump h hend hedge ih =>
    rw [hend] at ih
    exact .jump ih hedge

theorem Run.ne_of_dom (h : P.Run ω s) (hssa : P.Ssa types)
    (hi : P.flow.At i s.block s.position) (hy : P.flow.Dom y i) : y ≠ i := by
  rintro rfl
  exact hssa.unique.not_dom_self hi h.path hy

/-- **What holds of an instruction and of those that dominate it whenever it has been
executed holds wherever it is available.** -/
theorem Run.stable (hssa : P.Ssa types) {φ : Env → Prop}
    (hlocal : ∀ env env', env i = env' i → (∀ y, P.flow.Dom y i → env y = env' y) →
      φ env → φ env') (hexec : ∀ s, P.Run ω s → P.flow.At i s.block s.position →
      P.Origin ω (fun s => P.flow.Avail i s.block s.position → φ s.env) s →
      φ (P.execute ω s i).env)
    (h : P.Run ω s) (havail : P.flow.Avail i s.block s.position) : φ s.env := by
  revert havail
  apply (rec_entry (Q := fun s => P.flow.Avail i s.block s.position → φ s.env) _ _ _ h).1
  · intro havail
    nomatch (havail [] .start)
  · intro s j hrun hj ih horigin havail
    by_cases hij : i = j
    · subst hij
      exact hexec s hrun hj horigin
    · -- the item passed is neither the instruction nor dominates it
      apply hlocal s.env _ _ _ (ih (havail.of_step hj hij))
      · exact (update_of_ne hij _ _).symm
      · intro y hy
        apply (update_of_ne _ _ _).symm
        rintro rfl
        exact hssa.unique.not_avail_after hj hy hrun.path havail
  · intro s c hrun hend hedge ih havail
    apply ih
    rw [hend]
    exact havail.jump hedge

/-! ## Types -/

section Types

variable {args : List Val} {v : Val} {t0 t1 : IRType}

theorem onU32_type {f : BitVec 32 → BitVec 32 → BitVec 32}
    (h : onU32 f args = some v) : v.type = .u32 := by
  unfold onU32 at h
  split at h
  · cases h
    rfl
  · nomatch h

theorem onU64_type {f : BitVec 64 → BitVec 64 → BitVec 64}
    (h : onU64 f args = some v) : v.type = .u64 := by
  unfold onU64 at h
  split at h
  · cases h
    rfl
  · nomatch h

theorem onU64Shift_type {f : BitVec 64 → ℕ → BitVec 64}
    (h : onU64Shift f args = some v) : v.type = .u64 := by
  unfold onU64Shift at h
  split at h
  · cases h
    rfl
  · nomatch h

theorem onU32Compare_type {f : BitVec 32 → BitVec 32 → Bool}
    (h : onU32Compare f args = some v) : v.type = .u1 := by
  unfold onU32Compare at h
  split at h
  · cases h
    rfl
  · nomatch h

theorem onU64Compare_type {f : BitVec 64 → BitVec 64 → Bool}
    (h : onU64Compare f args = some v) : v.type = .u1 := by
  unfold onU64Compare at h
  split at h
  · cases h
    rfl
  · nomatch h

theorem onLogical_type {f : Bool → Bool → Bool} (h : onLogical f args = some v) : v.type = .u1 := by
  unfold onLogical at h
  split at h
  · cases h
    rfl
  · nomatch h

variable {t t2 : IRType}

theorem onSelect_type
    (htypes : args.map type = [.u1, t, t]) (h : onSelect args = some v) : v.type = t := by
  unfold onSelect at h
  split at h
  · simp only [map_cons, map_nil, cons.injEq, and_true] at htypes
    cases h
    split
    · exact htypes.2.1
    · exact htypes.2.2
  · nomatch h

theorem component_type {composite : Val} {index : ℕ} (h : component composite index = some v) :
    v.type = .u32 := by
  unfold component at h
  split at h
  · obtain ⟨word, _, rfl⟩ := map_eq_some_iff.mp h
    rfl
  · obtain ⟨word, _, rfl⟩ := map_eq_some_iff.mp h
    rfl
  · nomatch h

theorem shape1 (h : [t] = args.map type) : ∃ a, args = [a] ∧ a.type = t := by
  obtain ⟨a, _, rfl, ha, hrest⟩ := map_eq_cons_iff.mp h.symm
  obtain rfl := map_eq_nil_iff.mp hrest
  exact ⟨a, rfl, ha⟩

theorem shape2 (h : [t0, t1] = args.map type) :
    ∃ a b, args = [a, b] ∧ a.type = t0 ∧ b.type = t1 := by
  obtain ⟨a, rest, rfl, ha, hrest⟩ := map_eq_cons_iff.mp h.symm
  obtain ⟨b, rfl, hb⟩ := shape1 hrest.symm
  exact ⟨a, b, rfl, ha, hb⟩

theorem shape3 (h : [t0, t1, t2] = args.map type) :
    ∃ a b c, args = [a, b, c] ∧ a.type = t0 ∧ b.type = t1 ∧ c.type = t2 := by
  obtain ⟨a, rest, rfl, ha, hrest⟩ := map_eq_cons_iff.mp h.symm
  obtain ⟨b, c, rfl, hb⟩ := shape2 hrest.symm
  exact ⟨a, b, c, rfl, ha, hb⟩

theorem shape4 {t3 : IRType} (h : [t0, t1, t2, t3] = args.map type) :
    ∃ a b c d, args = [a, b, c, d] ∧ a.type = t0 ∧ b.type = t1 ∧ c.type = t2 ∧ d.type = t3 := by
  obtain ⟨a, rest, rfl, ha, hrest⟩ := map_eq_cons_iff.mp h.symm
  obtain ⟨b, c, d, rfl, hb⟩ := shape3 hrest.symm
  exact ⟨a, b, c, d, rfl, ha, hb⟩

theorem eval_type (ht : op.argTypes = some (args.map type)) (h : eval op args = some v) :
    v.type = op.typeOf := by
  cases op with
  | phi | identity | other _ _ => nomatch ht
  | bitCastU16F16 =>
    obtain ⟨a, rfl, ha⟩ := shape1 (some.inj ht)
    obtain ⟨a, rfl⟩ := of_f16 ha
    cases h
    rfl
  | bitCastF16U16 | convertU32U16 =>
    obtain ⟨a, rfl, ha⟩ := shape1 (some.inj ht)
    obtain ⟨a, rfl⟩ := of_u16 ha
    cases h
    rfl
  | bitCastU32F32 =>
    obtain ⟨a, rfl, ha⟩ := shape1 (some.inj ht)
    obtain ⟨a, rfl⟩ := of_f32 ha
    cases h
    rfl
  | bitCastF32U32 | convertU16U32 | convertU8U32 | iAbs32 | bitwiseNot32 | bitCount32 =>
    obtain ⟨a, rfl, ha⟩ := shape1 (some.inj ht)
    obtain ⟨a, rfl⟩ := of_u32 ha
    cases h
    rfl
  | convertU32U8 =>
    obtain ⟨a, rfl, ha⟩ := shape1 (some.inj ht)
    obtain ⟨a, rfl⟩ := of_u8 ha
    cases h
    rfl
  | packUint2x32 =>
    obtain ⟨a, rfl, ha⟩ := shape1 (some.inj ht)
    obtain ⟨x, y, rfl⟩ := of_u32x2 ha
    cases h
    rfl
  | unpackUint2x32 | bitCount64 =>
    obtain ⟨a, rfl, ha⟩ := shape1 (some.inj ht)
    obtain ⟨a, rfl⟩ := of_u64 ha
    cases h
    rfl
  | logicalNot =>
    obtain ⟨a, rfl, ha⟩ := shape1 (some.inj ht)
    obtain ⟨a, rfl⟩ := of_u1 ha
    cases h
    rfl
  | compositeConstructU32x2 | iAddCarry32 =>
    obtain ⟨a, b, rfl, ha, hb⟩ := shape2 (some.inj ht)
    obtain ⟨a, rfl⟩ := of_u32 ha
    obtain ⟨b, rfl⟩ := of_u32 hb
    cases h
    rfl
  | uDiv32 =>
    obtain ⟨a, b, rfl, ha, hb⟩ := shape2 (some.inj ht)
    obtain ⟨a, rfl⟩ := of_u32 ha
    obtain ⟨b, rfl⟩ := of_u32 hb
    obtain ⟨_, h⟩ := ite_none_left_eq_some.mp h
    cases h
    rfl
  | compositeExtractU32x2 | compositeExtractU32x4 =>
    obtain ⟨a, b, rfl, ha, hb⟩ := shape2 (some.inj ht)
    obtain ⟨b, rfl⟩ := of_u32 hb
    exact component_type h
  | bitFieldUExtract | bitFieldSExtract =>
    obtain ⟨a, b, c, rfl, ha, hb, hc⟩ := shape3 (some.inj ht)
    obtain ⟨a, rfl⟩ := of_u32 ha
    obtain ⟨b, rfl⟩ := of_u32 hb
    obtain ⟨c, rfl⟩ := of_u32 hc
    obtain ⟨_, h⟩ := ite_none_right_eq_some.mp h
    cases h
    rfl
  | compositeConstructU32x4 =>
    obtain ⟨a, b, c, d, rfl, ha, hb, hc, hd⟩ := shape4 (some.inj ht)
    obtain ⟨a, rfl⟩ := of_u32 ha
    obtain ⟨b, rfl⟩ := of_u32 hb
    obtain ⟨c, rfl⟩ := of_u32 hc
    obtain ⟨d, rfl⟩ := of_u32 hd
    cases h
    rfl
  | bitFieldInsert =>
    obtain ⟨a, b, c, d, rfl, ha, hb, hc, hd⟩ := shape4 (some.inj ht)
    obtain ⟨a, rfl⟩ := of_u32 ha
    obtain ⟨b, rfl⟩ := of_u32 hb
    obtain ⟨c, rfl⟩ := of_u32 hc
    obtain ⟨d, rfl⟩ := of_u32 hd
    obtain ⟨_, h⟩ := ite_none_right_eq_some.mp h
    cases h
    rfl
  | selectU1 | selectU32 | selectF32 => exact onSelect_type (some.inj ht).symm h
  | iAdd32 | iSub32 | iMul32 | sMulHi | uMulHi | shiftLeftLogical32 | shiftRightLogical32
  | shiftRightArithmetic32 | bitwiseAnd32 | bitwiseOr32 | bitwiseXor32 | sMin32 | uMin32
  | sMax32 | uMax32 => exact onU32_type h
  | iAdd64 | iSub64 | iMul64 | bitwiseAnd64 | bitwiseOr64 => exact onU64_type h
  | shiftLeftLogical64 | shiftRightLogical64 | shiftRightArithmetic64 => exact onU64Shift_type h
  | sLessThan32 | uLessThan32 | iEqual32 | sLessThanEqual32 | uLessThanEqual32 | sGreaterThan32
  | uGreaterThan32 | iNotEqual32 | sGreaterThanEqual32 | uGreaterThanEqual32 =>
    exact onU32Compare_type h
  | sLessThan64 | uLessThan64 | iEqual64 | sLessThanEqual64 | uLessThanEqual64 | sGreaterThan64
  | uGreaterThan64 | iNotEqual64 | sGreaterThanEqual64 | uGreaterThanEqual64 =>
    exact onU64Compare_type h
  | logicalOr | logicalAnd | logicalXor => exact onLogical_type h

theorem eval_eq_none (ht : op.argTypes = none) : eval op args = none := by
  cases op with
  | phi | identity | other _ _ => rfl
  | _ => nomatch ht

end Types

/-! ## Operands of a `Phi` -/

theorem phiOperand_mem {inst : Inst} (h : ∃ value, (pred, value) ∈ inst.phi_blocks.zip inst.args) :
    (pred, phiOperand inst pred) ∈ inst.phi_blocks.zip inst.args := by
  obtain ⟨value, hvalue⟩ := h
  unfold phiOperand
  cases hfind : (inst.phi_blocks.zip inst.args).find? fun operand => operand.1 = pred with
  | none =>
    have h := find?_eq_none.mp hfind _ hvalue
    simp at h
  | some operand =>
    have hpred : operand.1 = pred := by simpa using find?_some hfind
    have hmem := mem_of_find?_eq_some hfind
    subst hpred
    exact hmem

/-- The argument of a `Phi` for a block that leads to it is available at the end of the
block. -/
theorem Ssa.operand (hssa : P.Ssa types) (hi : P.flow.At i b k)
    (hphi : (P.insts i).opcode = .phi) (hedge : P.flow.edge p b) :
    phiOperand (P.insts i) p ∈ (P.insts i).args ∧
      InScope (fun y => P.flow.Avail y p (P.flow.code p).length) (phiOperand (P.insts i) p) := by
  have hmem := phiOperand_mem (hssa.phi_covers i b k hi hphi p hedge)
  refine ⟨(of_mem_zip hmem).2, fun y hy => ?_⟩
  apply hssa.phi_uses i b k hi hphi p hedge y
  rw [← hy]
  exact hmem

theorem Origin.pred_of_phi (horigin : P.Origin ω Q s) (hssa : P.Ssa types)
    (hi : P.flow.At i s.block s.position) (hphi : (P.insts i).opcode = .phi) :
    ∃ p, s.pred = some p := by
  cases hpred : s.pred with
  | none => exact absurd (horigin.entry hpred) (hssa.phi_entry i _ _ hi hphi)
  | some p => exact ⟨p, rfl⟩

/-! ## The view of a run -/

theorem read_typed (h : ∀ y, value = .inst y → (env y).type = types y) :
    (read env value).type = valueType types value := by
  cases value with
  | inst y => exact h y rfl
  | _ => rfl

section

variable (hssa : P.Ssa types)

include hssa

theorem Run.typed (h : P.Run ω s) : ∀ n ∈ s.trace, (s.env n).type = types n := by
  apply (rec_entry (Q := fun s => ∀ n ∈ s.trace, (s.env n).type = types n) _ _ _ h).1
  · intro n hn
    nomatch hn
  · intro s i hrun hi ih horigin n hn
    by_cases hni : n = i
    · subst hni
      show (update s.env n (P.result ω s n) n).type = types n
      rw [update_self]
      by_cases hphi : (P.insts n).opcode = .phi
      · obtain ⟨p, hp⟩ := horigin.pred_of_phi hssa hi hphi
        obtain ⟨s0, hrun0, ih0, rfl, hend, henv, hedge⟩ := horigin.arrived p hp
        have hoperand := hssa.operand hi hphi hedge
        rw [result_phi hphi hp, ← henv, ← hssa.phi_typed n hphi _ hoperand.1]
        apply read_typed
        intro y hy
        apply ih0 y
        apply hoperand.2 y hy
        rw [← hend]
        exact hrun0.path
      -- what another instruction uses has been executed
      have hargs : ∀ y, .inst y ∈ (P.insts n).args → (s.env y).type = types y := fun y hy =>
        ih y (hssa.uses n hphi y hy _ _ hi _ hrun.path)
      by_cases hidentity : (P.insts n).opcode = .identity
      · have harg := hssa.identity_arg hidentity
        rw [result_identity hssa hidentity, ← harg.2]
        apply read_typed
        intro y hy
        apply hargs y
        rw [harg.1, hy]
        exact .head _
      · have htyped := hssa.typed n hphi hidentity
        rw [result_eval hphi hidentity, htyped.1]
        cases hv : eval (P.insts n).opcode ((P.insts n).args.map (read s.env)) with
        | none => exact type_cast _ _
        | some v =>
          apply eval_type _ hv
          cases ht : (P.insts n).opcode.argTypes with
          | none => nomatch (eval_eq_none ht).symm.trans hv
          | some arg_types =>
            rw [← htyped.2 arg_types ht, List.map_map]
            congr 1
            apply map_congr_left
            intro value hvalue
            symm
            apply read_typed
            rintro y rfl
            exact hargs y hvalue
    · show (update s.env i (P.result ω s i) n).type = types n
      rw [update_of_ne hni]
      apply ih
      exact (mem_cons.mp hn).resolve_left hni
  · intro s c hrun hend hedge ih
    exact ih

theorem Ssa.closed_dom (i : ℕ) : P.Closed fun y => P.flow.Dom y i :=
  fun p hp hphi y hy => (hssa.uses p hphi y hy).trans hp

theorem Ssa.closed_avail (b k : ℕ) : P.Closed fun y => P.flow.Avail y b k :=
  fun p hp hphi y hy => hp.of_dom (hssa.uses p hphi y hy)

theorem Ssa.argsIn_dom (hphi : (P.insts i).opcode ≠ .phi) :
    P.ArgsIn (fun y => P.flow.Dom y i) i := by
  rintro value hvalue y rfl
  exact hssa.uses i hphi y hvalue

theorem read_execute (h : P.Run ω s) (hi : P.flow.At i s.block s.position)
    (hvalue : InScope (fun y => P.flow.Dom y i) value) :
    read (P.execute ω s i).env value = read s.env value := by
  apply read_congr
  intro y hy
  exact update_of_ne (h.ne_of_dom hssa hi (hvalue y hy)) _ _

/-- A value that is the result of an instruction whenever it is executed is the value of the
instruction wherever that is available. -/
theorem Run.sound (hvalue : InScope (fun y => P.flow.Dom y i) value)
    (hresult : ∀ s, P.Run ω s → P.flow.At i s.block s.position →
      P.Origin ω (fun s => P.flow.Avail i s.block s.position → s.env i = read s.env value) s →
      P.result ω s i = read s.env value)
    (h : P.Run ω s) (havail : P.flow.Avail i s.block s.position) : s.env i = read s.env value := by
  apply stable (φ := fun env => env i = read env value) hssa _ _ h havail
  · intro env env' hi hdom heq
    rw [← hi, heq]
    exact read_congr fun y hy => hdom y (hvalue y hy)
  · intro s hrun hi horigin
    rw [read_execute hssa hrun hi hvalue, ← hresult s hrun hi horigin]
    exact update_self _ _ _

/-- **What is available at a place of a run is a view of the environment.** -/
theorem Run.view (h : P.Run ω s) :
    P.View types (fun y => P.flow.Avail y s.block s.position) s.env := by
  refine ⟨fun p hp => h.typed hssa p (hp _ h.path), fun p hp => ?_, fun p hp hidentity => ?_⟩
  · by_cases hphi : (P.insts p).opcode = .phi
    · intro v hv
      rw [hphi] at hv
      nomatch hv
    have hin := hssa.argsIn_dom hphi
    apply stable (φ := fun env => ∀ v,
      eval (P.insts p).opcode ((P.insts p).args.map (read env)) = some v → env p = v) hssa _ _ h hp
    · intro env env' hp hdom heq v hv
      rw [← hp]
      apply heq
      rw [← hv]
      congr 1
      apply map_congr_left
      intro value hvalue
      exact read_congr fun y hy => hdom y (hin value hvalue y hy)
    · intro s hrun hp _ v hv
      have hargs : (P.insts p).args.map (read (P.execute ω s p).env) =
          (P.insts p).args.map (read s.env) := by
        apply map_congr_left
        intro value hvalue
        exact read_execute hssa hrun hp (hin value hvalue)
      have hidentity : (P.insts p).opcode ≠ .identity := by
        intro hidentity
        rw [hidentity] at hv
        nomatch hv
      show update s.env p (P.result ω s p) p = v
      rw [update_self, result_eval hphi hidentity, ← hargs, hv]
      rfl
  · have hphi : (P.insts p).opcode ≠ .phi := by simp [hidentity]
    apply sound hssa ((hssa.argsIn_dom hphi).instArg 0) _ h hp
    intro s hrun hp _
    exact result_identity hssa hidentity

end

/-! ## Folding a `Phi` -/

section Phi

theorem foldPhiLoop_spec {acc : Value} {args : List Value}
    (hargs : ∀ arg ∈ args, P.resolve arg ≠ .empty) (h : P.foldPhiLoop i acc args = some same) :
    (acc ≠ .empty → same = acc) ∧
    (∀ arg ∈ args, P.resolve arg = .inst i ∨ P.resolve arg = same) ∧
    (same = acc ∨ ∃ arg ∈ args, P.resolve arg = same) := by
  induction args generalizing acc with
  | nil =>
    cases h
    exact ⟨fun _ => rfl, fun arg harg => absurd harg not_mem_nil, .inl rfl⟩
  | cons arg args ih =>
    obtain ⟨hvalue, hrest⟩ := forall_mem_cons.mp hargs
    unfold foldPhiLoop at h
    simp only at h
    split at h
    next hself =>
      obtain ⟨h1, h2, h3⟩ := ih hrest h
      refine ⟨h1, forall_mem_cons.mpr ⟨.inl hself, h2⟩, h3.imp_right ?_⟩
      exact fun ⟨arg', hmem, heq⟩ => ⟨arg', .tail _ hmem, heq⟩
    split at h
    · -- the first argument that is not the `Phi`
      rename_i hempty
      obtain ⟨h1, h2, h3⟩ := ih hrest h
      have harg : P.resolve arg = same := (h1 hvalue).symm
      exact ⟨fun hacc => absurd hempty hacc, forall_mem_cons.mpr ⟨.inr harg, h2⟩,
        .inr ⟨arg, .head _, harg⟩⟩
    split at h
    · nomatch h
    next hne hsame =>
      obtain ⟨h1, h2, h3⟩ := ih hrest h
      have harg : P.resolve arg = same := by
        rw [h1 hne]
        exact (not_not.mp hsame).symm
      exact ⟨h1, forall_mem_cons.mpr ⟨.inr harg, h2⟩, .inr ⟨arg, .head _, harg⟩⟩

theorem foldPhi_spec (hssa : P.Ssa types) (hphi : (P.insts i).opcode = .phi)
    (h : P.foldPhi i = some same) :
    (∀ arg ∈ (P.insts i).args, P.resolve arg = .inst i ∨ P.resolve arg = same) ∧
    valueType types same = types i := by
  have htype : ∀ arg ∈ (P.insts i).args, valueType types (P.resolve arg) = types i :=
    fun arg harg => (hssa.resolveIn_type _).trans (hssa.phi_typed i hphi arg harg)
  have hargs : ∀ arg ∈ (P.insts i).args, P.resolve arg ≠ .empty := by
    intro arg harg hempty
    apply hssa.phi_value i hphi
    rw [← htype arg harg, hempty]
    rfl
  obtain ⟨hloop, hsame⟩ := filter_eq_some_iff.mp h
  obtain ⟨_, h2, h3⟩ := foldPhiLoop_spec hargs hloop
  refine ⟨h2, ?_⟩
  obtain ⟨arg, harg, rfl⟩ := h3.resolve_left (of_decide_eq_true hsame)
  exact htype arg harg

variable (hssa : P.Ssa types) (hphi : (P.insts i).opcode = .phi)
  (hargs : ∀ arg ∈ (P.insts i).args, P.resolve arg = .inst i ∨ P.resolve arg = same)

include hssa hphi hargs

theorem operand_cases (hi : P.flow.At i b k) (hedge : P.flow.edge p b) :
    (P.resolve (phiOperand (P.insts i) p) = .inst i ∧
      P.flow.Avail i p (P.flow.code p).length) ∨
    (P.resolve (phiOperand (P.insts i) p) = same ∧
      InScope (fun y => P.flow.Avail y p (P.flow.code p).length) same) := by
  have hoperand := hssa.operand hi hphi hedge
  have hscope := hssa.resolveIn_scope (hssa.closed_avail _ _) P.blocks.flatten.length hoperand.2
  rcases hargs _ hoperand.1 with h | h
  · exact .inl ⟨h, hscope i h⟩
  · refine .inr ⟨h, ?_⟩
    rw [← h]
    exact hscope

/-- The one value dominates the `Phi`: on every way to the `Phi`, the first block that leads
to it has made the value available. -/
theorem same_dom : InScope (fun y => P.flow.Dom y i) same := by
  rintro y rfl b k hi trace hpath
  induction hn : trace.length using Nat.strongRecOn generalizing trace with
  | _ n ih =>
    obtain ⟨start, hstart, hsuffix⟩ := hpath.block_start
    cases hstart with
    | start => exact absurd rfl (hssa.phi_entry i 0 k hi hphi)
    | @jump p _ _ hend hedge =>
      rcases operand_cases hssa hphi hargs hi hedge with ⟨_, havail⟩ | ⟨_, havail⟩
      · -- the `Phi` has been passed before
        obtain ⟨b', k', trace', hat, hpath', hshort⟩ := hend.before (havail _ hend)
        obtain ⟨rfl, rfl⟩ := hssa.unique _ _ _ _ _ hat hi
        have hlt : trace'.length < trace.length :=
          lt_of_lt_of_le (Nat.lt_succ_self _) (hshort.length_le.trans hsuffix.length_le)
        have hy := ih trace'.length (by omega) trace' hpath' rfl
        exact hsuffix.subset (hshort.subset (.tail _ hy))
      · exact hsuffix.subset (havail y rfl _ hend)

theorem same_elsewhere {k' : ℕ} {trace : List ℕ} (hsame : same = .inst y)
    (hi : P.flow.At i b k) (hpath : P.flow.Path b 0 trace) : ¬ P.flow.At y b k' := by
  intro hy
  induction hn : trace.length using Nat.strongRecOn generalizing trace with
  | _ n ih =>
    cases hpath with
    | start => exact absurd rfl (hssa.phi_entry i 0 k hi hphi)
    | @jump p _ _ hend hedge =>
      -- the block has been entered before on the way
      have hbefore : ∃ k'' trace', P.flow.Path b k'' trace' ∧ trace'.length < trace.length := by
        rcases operand_cases hssa hphi hargs hi hedge with ⟨_, havail⟩ | ⟨_, havail⟩
        · obtain ⟨b', k'', trace', hat, hpath', hshort⟩ := hend.before (havail _ hend)
          obtain ⟨rfl, rfl⟩ := hssa.unique _ _ _ _ _ hat hi
          exact ⟨_, trace', hpath', hshort.length_le⟩
        · obtain ⟨b', k'', trace', hat, hpath', hshort⟩ := hend.before (havail y hsame _ hend)
          obtain ⟨rfl, rfl⟩ := hssa.unique _ _ _ _ _ hat hy
          exact ⟨_, trace', hpath', hshort.length_le⟩
      obtain ⟨k'', trace', hpath', hlt⟩ := hbefore
      obtain ⟨start, hstart, hsuffix⟩ := hpath'.block_start
      have hle := hsuffix.length_le
      exact ih start.length (by omega) hstart rfl

end Phi

theorem Run.entry_env (h : P.Run ω s) (hy : ∀ k, ¬ P.flow.At y s.block k) :
    s.env y = s.entry_env y := by
  induction h with
  | start | jump => rfl
  | @step s i h hi ih =>
    show update s.env i (P.result ω s i) y = s.entry_env y
    rw [update_of_ne _ _ _]
    · exact ih hy
    · rintro rfl
      exact hy _ hi

/-- **A `Phi` has the one value of its arguments whenever it is executed.** -/
theorem foldPhi_result (hssa : P.Ssa types) (hphi : (P.insts i).opcode = .phi)
    (hargs : ∀ arg ∈ (P.insts i).args, P.resolve arg = .inst i ∨ P.resolve arg = same)
    (h : P.Run ω s) (hi : P.flow.At i s.block s.position) (horigin : P.Origin ω
      (fun s => P.flow.Avail i s.block s.position → s.env i = read s.env same) s) :
    P.result ω s i = read s.env same := by
  obtain ⟨p, hp⟩ := horigin.pred_of_phi hssa hi hphi
  obtain ⟨s0, hrun0, ih0, rfl, hend, henv, hedge⟩ := horigin.arrived p hp
  have hsame : read s0.env same = read s.env same := by
    rw [henv]
    apply read_congr
    intro y hy
    symm
    obtain ⟨start, hstart, _⟩ := h.path.block_start
    exact h.entry_env fun k' => same_elsewhere hssa hphi hargs hy hi hstart
  have hview := hrun0.view hssa
  rw [hend] at hview ih0
  have hoperand := hssa.operand hi hphi hedge
  have hresolve := hview.resolveIn_read hssa (hssa.closed_avail _ _) P.blocks.flatten.length
    hoperand.2
  rw [result_phi hphi hp, ← henv, ← hresolve, ← hsame]
  rcases operand_cases hssa hphi hargs hi hedge with ⟨heq, havail⟩ | ⟨heq, _⟩
  · have heq' : P.resolveIn P.blocks.flatten.length
        (phiOperand (P.insts i) s0.block) = .inst i := heq
    rw [heq']
    exact ih0 havail
  · exact congrArg (read s0.env) heq

end MagnusPS5.Shader.Program
