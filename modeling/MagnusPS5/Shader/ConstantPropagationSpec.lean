/-
What `constantPropagationPass` preserves.

One round replaces an instruction by a value that dominates it and has its type
(`Replacement`), so that the program stays in static single assignment form. If the value
is also the result of the instruction whenever it is executed, the program afterwards has
the same runs and the same values at every use (`Preserved`).

The value is the result except for a conversion to 16 or 8 bits and back, which is
replaced by the argument of the first conversion.
-/
import MagnusPS5.Shader.ConstantPropagationRun

namespace MagnusPS5.Shader.Program

open Lib
open Function (update)
open List RunState Function Program

/-! ## Statements -/

/-- The two programs have the same runs, and every instruction that is the same in both
uses the same values. -/
structure Preserved (P P' : Program) : Prop where
  runs : ∀ ω s, P'.Run ω s ↔ P.Run ω s
  uses : ∀ ω s i, P.Run ω s → P.flow.At i s.block s.position →
    (P'.insts i).opcode = (P.insts i).opcode → P'.argValues s i = P.argValues s i

/-- If the instruction is folded together with a narrowing conversion, the argument of that
fits whenever the original program executes the instruction. -/
def NarrowingFits (P₀ P : Program) (i : ℕ) : Prop :=
  ∀ bits x, P.narrowing i = some (bits, x) → ∀ ω s, P₀.Run ω s →
    P₀.flow.At i s.block s.position → (read s.env x).Fits bits

/-- `NarrowingFits` at each round of the loop of the pass. -/
def PassFits (P₀ : Program) : Program → List ℕ → Prop
  | _, [] => True
  | P, i :: ids => NarrowingFits P₀ P i ∧ PassFits P₀ (P.foldStep i) ids

/-- A value that an instruction may be replaced by. -/
structure Replacement (P : Program) (types : ℕ → IRType) (i : ℕ) (value : Value) : Prop where
  scope : InScope (fun y => P.flow.Dom y i) value
  type : valueType types value = types i
  identity : (P.insts i).opcode ≠ .identity
  other : ∀ index type, (P.insts i).opcode ≠ .other index type

/-- The value is the result of the instruction whenever it is executed. -/
def IsResult (P : Program) (i : ℕ) (value : Value) : Prop :=
  ∀ ω s, P.Run ω s → P.flow.At i s.block s.position → P.result ω s i = read s.env value

variable {P : Program} {types : ℕ → IRType} {ω : Oracle} {s : RunState} {i j : ℕ} {value : Value}

/-! ## The value that an instruction is folded to -/

theorem foldInstruction_eq_none (h : (P.insts i).opcode = .identity ∨
    ∃ index type, (P.insts i).opcode = .other index type) : P.foldInstruction i = none := by
  unfold foldInstruction
  rcases h with h | ⟨index, type, h⟩
  · rw [h]
    rfl
  · rw [h]
    rfl

theorem foldInstruction_replacement (hssa : P.Ssa types) (h : P.foldInstruction i = some value) :
    P.Replacement types i (P.resolve value) := by
  have hvalue : InScope (fun y => P.flow.Dom y i) value ∧ valueType types value = types i := by
    by_cases hphi : (P.insts i).opcode = .phi
    · unfold foldInstruction at h
      rw [hphi] at h
      obtain ⟨hargs, htype⟩ := foldPhi_spec hssa hphi h
      exact ⟨same_dom hssa hphi hargs, htype⟩
    · have hjustified := foldInstruction_justified hssa (hssa.closed_dom i) (hssa.argsIn_dom hphi)
        hphi h
      exact ⟨hjustified.scope, hjustified.type⟩
  refine ⟨hssa.resolveIn_scope (hssa.closed_dom i) _ hvalue.1,
    (hssa.resolveIn_type _).trans hvalue.2, fun hop => ?_, fun index type hop => ?_⟩
  · nomatch (foldInstruction_eq_none (.inl hop)).symm.trans h
  · nomatch (foldInstruction_eq_none (.inr ⟨index, type, hop⟩)).symm.trans h

theorem Run.origin (h : P.Run ω s) {Q : RunState → Prop} (hQ : ∀ s, P.Run ω s → Q s) :
    P.Origin ω Q s := by
  obtain ⟨_, hentry, harrived⟩ :=
    Run.rec_entry (Q := fun _ => True) trivial (fun _ _ _ _ _ _ => trivial)
      (fun _ _ _ _ _ _ => trivial) h
  refine ⟨hentry, fun p hp => ?_⟩
  obtain ⟨s0, hrun, _, hrest⟩ := harrived p hp
  exact ⟨s0, hrun, hQ s0 hrun, hrest⟩

/-- **The value that an instruction is folded to is its result**, if nothing is lost. -/
theorem foldInstruction_isResult (hssa : P.Ssa types) (h : P.foldInstruction i = some value)
    (hfits : NarrowingFits P P i) : P.IsResult i (P.resolve value) := by
  have hrep := foldInstruction_replacement hssa h
  intro ω s hrun hi
  have hview := hrun.view hssa
  by_cases hphi : (P.insts i).opcode = .phi
  · have hfold : P.foldPhi i = some value := by
      unfold foldInstruction at h
      rw [hphi] at h
      exact h
    obtain ⟨hargs, _⟩ := foldPhi_spec hssa hphi hfold
    have hscope := same_dom hssa hphi hargs
    have hsound : ∀ s, P.Run ω s → P.flow.Avail i s.block s.position →
        s.env i = read s.env value := fun s hrun havail =>
      Run.sound hssa hscope
        (fun s hrun hi horigin => foldPhi_result hssa hphi hargs hrun hi horigin) hrun havail
    have hresolve : read s.env (P.resolve value) = read s.env value :=
      hview.resolveIn_read hssa (hssa.closed_avail _ _) _ fun y hy => hscope y hy _ _ hi
    rw [hresolve]
    exact foldPhi_result hssa hphi hargs hrun hi (hrun.origin hsound)
  · have hin : P.ArgsIn (fun y => P.flow.Avail y s.block s.position) i :=
      fun value hvalue y hy => hssa.argsIn_dom hphi value hvalue y hy _ _ hi
    have hclosed := hssa.closed_avail s.block s.position
    have hjustified := foldInstruction_justified hssa hclosed hin hphi h
    have hresolve : read s.env (P.resolve value) = read s.env value :=
      hview.resolveIn_read hssa hclosed _ hjustified.scope
    have hresult := hjustified.result s.env hview fun bits x hx => hfits bits x hx ω s hrun hi
    rw [result_eval hphi hrep.identity, hresult, hresolve]
    rfl

/-! ## One replacement -/

theorem replaceUsesWith_self : ((P.replaceUsesWith i value).insts i) =
    { opcode := .identity, args := [value] } := if_pos rfl

theorem replaceUsesWith_of_ne (h : j ≠ i) : ((P.replaceUsesWith i value).insts j) =
    { P.insts j with
      args := (P.insts j).args.map fun arg => if arg = .inst i then value else arg } := if_neg h

/-- A phi is no identity. -/
theorem phi_ne (h : ((P.replaceUsesWith i value).insts j).opcode = .phi) : j ≠ i := by
  rintro rfl
  rw [replaceUsesWith_self] at h
  nomatch h

/-- The opcode of an instruction stays, or the instruction becomes an identity. -/
def Shrinks (P P' : Program) : Prop :=
  P'.flow = P.flow ∧
    ∀ j, (P'.insts j).opcode = (P.insts j).opcode ∨ (P'.insts j).opcode = .identity

variable {P' P₀ : Program}

theorem Shrinks.trans {P'' : Program} (h : Shrinks P P') (h' : Shrinks P' P'') : Shrinks P P'' := by
  refine ⟨h'.1.trans h.1, fun j => ?_⟩
  rcases h'.2 j with hj | hj
  · rw [hj]
    exact h.2 j
  · exact .inr hj

theorem replaceUsesWith_shrinks : Shrinks P (P.replaceUsesWith i value) := by
  refine ⟨rfl, fun j => ?_⟩
  by_cases hj : j = i
  · rw [hj, replaceUsesWith_self]
    exact .inr rfl
  · rw [replaceUsesWith_of_ne hj]
    exact .inl rfl

section Replace

variable (hssa : P.Ssa types) (hrep : P.Replacement types i value)

include hssa hrep

omit hssa in
theorem inst_of_replaced {args : List Value} {y : ℕ}
    (h : .inst y ∈ args.map fun arg => if arg = .inst i then value else arg) :
    (.inst y ∈ args) ∨ (.inst i ∈ args ∧ P.flow.Dom y i) := by
  obtain ⟨arg, harg, heq⟩ := mem_map.mp h
  split at heq
  next hself =>
    subst hself
    exact .inr ⟨harg, hrep.scope y heq⟩
  · subst heq
    exact .inl harg

omit hssa in
theorem valueType_replaced (arg : Value) :
    valueType types (if arg = .inst i then value else arg) = valueType types arg := by
  split
  next hself =>
    rw [hself]
    exact hrep.type
  · rfl

/-- **The program stays in static single assignment form.** -/
theorem Replacement.ssa : (P.replaceUsesWith i value).Ssa types where
  unique := hssa.unique
  uses j hphi y hy := by
    by_cases hj : j = i
    · subst hj
      rw [replaceUsesWith_self] at hy
      exact hrep.scope y (mem_singleton.mp hy).symm
    · rw [replaceUsesWith_of_ne hj] at hy hphi
      rcases inst_of_replaced hrep hy with hy | ⟨hself, hdom⟩
      · exact hssa.uses j hphi y hy
      · exact hdom.trans (hssa.uses j hphi i hself)
  phi_entry j b k hat hphi := by
    have hj := phi_ne hphi
    rw [replaceUsesWith_of_ne hj] at hphi
    exact hssa.phi_entry j b k hat hphi
  phi_covers j b k hat hphi p hedge := by
    have hj := phi_ne hphi
    rw [replaceUsesWith_of_ne hj] at hphi ⊢
    obtain ⟨arg, harg⟩ := hssa.phi_covers j b k hat hphi p hedge
    refine ⟨if arg = .inst i then value else arg, ?_⟩
    rw [zip_map_right]
    exact mem_map.mpr ⟨(p, arg), harg, rfl⟩
  phi_uses j b k hat hphi p hedge y hy := by
    have hj := phi_ne hphi
    rw [replaceUsesWith_of_ne hj] at hphi hy
    rw [zip_map_right] at hy
    obtain ⟨⟨p', arg⟩, hmem, heq⟩ := mem_map.mp hy
    obtain ⟨rfl, harg⟩ := Prod.mk.inj heq
    have hcases : .inst y ∈ [arg] ∨ .inst i ∈ [arg] ∧ P.flow.Dom y i :=
      inst_of_replaced hrep (mem_singleton.mpr harg.symm)
    simp only [mem_singleton] at hcases
    rcases hcases with rfl | ⟨rfl, hdom⟩
    · exact hssa.phi_uses j b k hat hphi _ hedge y hmem
    · exact (hssa.phi_uses j b k hat hphi _ hedge i hmem).of_dom hdom
  typed j hphi hidentity := by
    by_cases hj : j = i
    · rw [hj, replaceUsesWith_self] at hidentity
      exact absurd rfl hidentity
    · rw [replaceUsesWith_of_ne hj] at hphi hidentity ⊢
      obtain ⟨htype, hargs⟩ := hssa.typed j hphi hidentity
      refine ⟨htype, fun arg_types h => ?_⟩
      rw [← hargs arg_types h, map_map]
      apply map_congr_left
      intro arg _
      exact valueType_replaced hrep arg
  phi_typed j hphi arg harg := by
    have hj := phi_ne hphi
    rw [replaceUsesWith_of_ne hj] at hphi harg
    obtain ⟨arg', harg', rfl⟩ := mem_map.mp harg
    rw [valueType_replaced hrep]
    exact hssa.phi_typed j hphi arg' harg'
  phi_value j hphi := by
    have hj := phi_ne hphi
    rw [replaceUsesWith_of_ne hj] at hphi
    exact hssa.phi_value j hphi
  identity_typed j hidentity := by
    by_cases hj : j = i
    · subst hj
      rw [replaceUsesWith_self]
      exact ⟨value, rfl, hrep.type⟩
    · rw [replaceUsesWith_of_ne hj] at hidentity ⊢
      obtain ⟨arg, harg, htype⟩ := hssa.identity_typed j hidentity
      refine ⟨if arg = .inst i then value else arg, ?_, ?_⟩
      · show (P.insts j).args.map _ = _
        rw [harg]
        rfl
      · rw [valueType_replaced hrep]
        exact htype

variable (hresult : P.IsResult i value)

include hresult

theorem read_replaced (hrun : P.Run ω s) {arg : Value}
    (harg : InScope (fun y => P.flow.Avail y s.block s.position) arg) :
    read s.env (if arg = .inst i then value else arg) = read s.env arg := by
  split
  next hself =>
    subst hself
    symm
    exact Run.sound hssa hrep.scope (fun s hrun hi _ => hresult ω s hrun hi) hrun (harg i rfl)
  · rfl

omit hssa hrep hresult in
theorem phiOperand_replaced (hne : j ≠ i) {p : ℕ}
    (h : (p, phiOperand (P.insts j) p) ∈ (P.insts j).phi_blocks.zip (P.insts j).args) :
    phiOperand ((P.replaceUsesWith i value).insts j) p =
      if phiOperand (P.insts j) p = .inst i then value else phiOperand (P.insts j) p := by
  rw [replaceUsesWith_of_ne hne]
  unfold phiOperand at h ⊢
  rw [zip_map_right, find?_map]
  cases hfind : ((P.insts j).phi_blocks.zip (P.insts j).args).find? fun operand =>
      operand.1 = p with
  | none =>
    have habsurd := find?_eq_none.mp hfind _ h
    simp at habsurd
  | some operand =>
    have hfind' : ((P.insts j).phi_blocks.zip (P.insts j).args).find?
        ((fun operand : ℕ × Value => decide (operand.1 = p)) ∘
          .map id fun arg => if arg = .inst i then value else arg) = some operand := hfind
    rw [hfind']
    rfl

theorem Replacement.argValues (hrun : P.Run ω s) (hj : P.flow.At j s.block s.position)
    (hne : j ≠ i) : (P.replaceUsesWith i value).argValues s j = P.argValues s j := by
  have hopcode : ((P.replaceUsesWith i value).insts j).opcode = (P.insts j).opcode := by
    rw [replaceUsesWith_of_ne hne]
  by_cases hphi : (P.insts j).opcode = .phi
  · have horigin := hrun.origin (Q := fun _ => True) fun _ _ => trivial
    obtain ⟨p, hp⟩ := horigin.pred_of_phi hssa hj hphi
    obtain ⟨s0, hrun0, _, rfl, hend, henv, hedge⟩ := horigin.arrived p hp
    have hoperand := hssa.operand hj hphi hedge
    have hmem := phiOperand_mem (hssa.phi_covers j _ _ hj hphi _ hedge)
    rw [argValues_phi (hopcode.trans hphi) hp, argValues_phi hphi hp, phiOperand_replaced hne hmem,
      ← henv]
    congr 1
    apply read_replaced hssa hrep hresult hrun0
    rw [hend]
    exact hoperand.2
  · have hphi' : ((P.replaceUsesWith i value).insts j).opcode ≠ .phi := hopcode ▸ hphi
    rw [argValues_of_ne hphi', argValues_of_ne hphi, replaceUsesWith_of_ne hne, map_map]
    apply map_congr_left
    intro arg harg
    apply read_replaced hssa hrep hresult hrun
    intro y hy
    exact hssa.argsIn_dom hphi arg harg y hy _ _ hj

omit hssa hrep hresult in
theorem result_congr (hopcode : (P'.insts j).opcode = (P.insts j).opcode)
    (hargs : P'.argValues s j = P.argValues s j) : P'.result ω s j = P.result ω s j := by
  unfold result
  rw [hopcode, hargs]

omit hssa hrep hresult in
theorem historyAfter_congr (hopcode : (P'.insts j).opcode = (P.insts j).opcode)
    (hargs : P'.argValues s j = P.argValues s j) : P'.historyAfter s j = P.historyAfter s j := by
  unfold historyAfter
  rw [hopcode, hargs]

omit hssa hrep hresult in
theorem historyAfter_of_ne (h : ∀ index type, (P.insts j).opcode ≠ .other index type) :
    P.historyAfter s j = s.history := by
  unfold historyAfter
  split
  · exact absurd ‹_› (h _ _)
  · rfl

/-- **Every instruction has the same effect after the replacement.** -/
theorem Replacement.execute (hrun : P.Run ω s) (hj : P.flow.At j s.block s.position) :
    (P.replaceUsesWith i value).execute ω s j = P.execute ω s j := by
  have hsame : (P.replaceUsesWith i value).result ω s j = P.result ω s j ∧
      (P.replaceUsesWith i value).historyAfter s j = P.historyAfter s j := by
    by_cases hne : j = i
    · subst hne
      have hself : ((P.replaceUsesWith j value).insts j).opcode = .identity := by
        rw [replaceUsesWith_self]
      constructor
      · rw [result_identity (hrep.ssa hssa) hself, hresult ω s hrun hj]
        unfold instArg
        rw [replaceUsesWith_self]
        rfl
      · rw [historyAfter_of_ne hrep.other, historyAfter_of_ne]
        intro index type
        rw [hself]
        exact nofun
    · have hargs := hrep.argValues hssa hresult hrun hj hne
      have hopcode : ((P.replaceUsesWith i value).insts j).opcode = (P.insts j).opcode := by
        rw [replaceUsesWith_of_ne hne]
      exact ⟨result_congr hopcode hargs, historyAfter_congr hopcode hargs⟩
  unfold Program.execute
  rw [hsame.1, hsame.2]

/-- **The program has the same runs after the replacement.** -/
theorem Replacement.preserved : Preserved P (P.replaceUsesWith i value) := by
  refine ⟨fun ω s => ⟨fun h => ?_, fun h => ?_⟩, fun ω s j hrun hj hopcode => ?_⟩
  · induction h with
    | start => exact .start
    | step _ hi ih =>
      rw [hrep.execute hssa hresult ih hi]
      exact .step ih hi
    | jump _ hend hedge ih => exact .jump ih hend hedge
  · induction h with
    | start => exact .start
    | step h hi ih =>
      rw [← hrep.execute hssa hresult h hi]
      exact .step ih hi
    | jump _ hend hedge ih => exact .jump ih hend hedge
  · apply hrep.argValues hssa hresult hrun hj
    rintro rfl
    rw [replaceUsesWith_self] at hopcode
    exact hrep.identity hopcode.symm

end Replace

/-! ## The pass -/

theorem Preserved.trans {P'' : Program} (h : Preserved P P') (h' : Preserved P' P'')
    (hs : Shrinks P P') (hs' : Shrinks P' P'') : Preserved P P'' := by
  refine ⟨fun ω s => (h'.runs ω s).trans (h.runs ω s), fun ω s j hrun hj hopcode => ?_⟩
  -- what is the same in the end was the same in between
  have hmiddle : (P'.insts j).opcode = (P.insts j).opcode := by
    rcases hs.2 j with hj' | hj'
    · exact hj'
    · rcases hs'.2 j with hj'' | hj''
      · rw [← hj'', hopcode]
      · rw [hj', ← hopcode, hj'']
  have hfirst := h.uses ω s j hrun hj hmiddle
  have hflow : P'.flow.At j s.block s.position := by
    rw [hs.1]
    exact hj
  rw [h'.uses ω s j ((h.runs ω s).mpr hrun) hflow (hopcode.trans hmiddle.symm), hfirst]

theorem foldStep_shrinks : Shrinks P (P.foldStep i) := by
  unfold foldStep
  split
  · exact ⟨rfl, fun _ => .inl rfl⟩
  · exact replaceUsesWith_shrinks

theorem foldStep_ssa (hssa : P.Ssa types) (i : ℕ) : (P.foldStep i).Ssa types := by
  unfold foldStep
  split
  · exact hssa
  · exact (foldInstruction_replacement hssa ‹_›).ssa hssa

theorem Preserved.refl (P : Program) : Preserved P P :=
  ⟨fun _ _ => .rfl, fun _ _ _ _ _ _ => rfl⟩

/-- **One round of the loop preserves the program, if nothing is lost.** -/
theorem foldStep_preserved (hssa : P.Ssa types) (hfits : NarrowingFits P P i) :
    Preserved P (P.foldStep i) := by
  unfold foldStep
  split
  · exact .refl P
  next value h =>
    exact (foldInstruction_replacement hssa h).preserved hssa (foldInstruction_isResult hssa h hfits)

theorem NarrowingFits.of_preserved (h : Preserved P₀ P) (hs : Shrinks P₀ P)
    (hfits : NarrowingFits P₀ P i) : NarrowingFits P P i := by
  intro bits x hx ω s hrun hi
  rw [hs.1] at hi
  exact hfits bits x hx ω s ((h.runs ω s).mp hrun) hi

theorem foldl_shrinks (ids : List ℕ) : Shrinks P (ids.foldl foldStep P) := by
  induction ids generalizing P with
  | nil => exact ⟨rfl, fun _ => .inl rfl⟩
  | cons i ids ih => exact foldStep_shrinks.trans ih

theorem foldl_ssa (hssa : P.Ssa types) (ids : List ℕ) : (ids.foldl foldStep P).Ssa types := by
  induction ids generalizing P with
  | nil => exact hssa
  | cons i ids ih => exact ih (foldStep_ssa hssa i)

theorem foldl_preserved (hssa : P.Ssa types) (h : Preserved P₀ P)
    (hs : Shrinks P₀ P) {ids : List ℕ} (hfits : PassFits P₀ P ids) :
    Preserved P₀ (ids.foldl foldStep P) := by
  induction ids generalizing P with
  | nil => exact h
  | cons i ids ih =>
    have hstep := foldStep_preserved hssa (hfits.1.of_preserved h hs)
    exact ih (foldStep_ssa hssa i) (h.trans hstep hs foldStep_shrinks)
      (hs.trans foldStep_shrinks) hfits.2

/-! ## What is lost

An instruction that has been replaced stays a copy of the value, or of what the value has
been replaced by in turn. -/

/-- The instruction is a copy of the value, or both are copies of the same. -/
def CopyOf (P : Program) (i : ℕ) (x : Value) : Prop :=
  ∃ v, P.insts i = { opcode := .identity, args := [v] } ∧
    (v = x ∨ ∃ p, x = .inst p ∧ P.insts p = { opcode := .identity, args := [v] })

variable {x : Value}

theorem CopyOf.replace (h : CopyOf P i x) (hj : (P.insts j).opcode ≠ .identity) :
    CopyOf (P.replaceUsesWith j value) i x := by
  obtain ⟨v, hi, hx⟩ := h
  have hcopy : ∀ n, P.insts n = { opcode := .identity, args := [v] } →
      (P.replaceUsesWith j value).insts n =
        { opcode := .identity, args := [if v = .inst j then value else v] } := by
    intro n hn
    have hne : n ≠ j := by
      rintro rfl
      exact hj (by rw [hn])
    rw [replaceUsesWith_of_ne hne, hn]
    rfl
  refine ⟨_, hcopy i hi, ?_⟩
  rcases hx with rfl | ⟨p, hp, hinst⟩
  · by_cases hv : v = .inst j
    · refine .inr ⟨j, hv, ?_⟩
      rw [replaceUsesWith_self, if_pos hv]
    · exact .inl (if_neg hv)
  · exact .inr ⟨p, hp, hcopy p hinst⟩

theorem CopyOf.foldl (h : CopyOf P i x) (ids : List ℕ) : CopyOf (ids.foldl foldStep P) i x := by
  induction ids generalizing P with
  | nil => exact h
  | cons j ids ih =>
    apply ih
    unfold foldStep
    split
    · exact h
    next value hfold =>
      apply h.replace
      intro hop
      nomatch (foldInstruction_eq_none (.inl hop)).symm.trans hfold

theorem CopyOf.result (h : CopyOf P i x) (hssa : P.Ssa types) (hrun : P.Run ω s)
    (hx : InScope (fun y => P.flow.Avail y s.block s.position) x) :
    P.result ω s i = read s.env x := by
  obtain ⟨v, hi, hcases⟩ := h
  have hresult : P.result ω s i = read s.env v := by
    rw [result_identity hssa (by rw [hi])]
    unfold instArg
    rw [hi]
    rfl
  rw [hresult]
  rcases hcases with rfl | ⟨p, rfl, hp⟩
  · rfl
  · have hcopy := (hrun.view hssa).copies p (hx p rfl) (by rw [hp])
    unfold instArg at hcopy
    rw [hp] at hcopy
    exact hcopy.symm

/-- Two programs with the same runs have the same result of an instruction that `eval`
determines. -/
theorem result_of_runs (h : ∀ ω s, P'.Run ω s ↔ P.Run ω s) (hssa : P.Ssa types)
    (hflow : P'.flow = P.flow) (hrun : P.Run ω s) (hi : P.flow.At i s.block s.position) {v : Val}
    (hv : eval (P.insts i).opcode ((P.insts i).args.map (read s.env)) = some v) :
    P'.result ω s i = v := by
  have hphi : (P.insts i).opcode ≠ .phi := by
    intro hphi
    rw [hphi] at hv
    nomatch hv
  have hidentity : (P.insts i).opcode ≠ .identity := by
    intro hidentity
    rw [hidentity] at hv
    nomatch hv
  have hnext : P.Run ω (P'.execute ω s i) := by
    apply (h ω _).mp
    apply Run.step ((h ω s).mpr hrun)
    rw [hflow]
    exact hi
  -- the last step of this run of `P` has executed the instruction with the same arguments
  generalize hnext' : P'.execute ω s i = next at hnext
  cases hnext with
  | start | jump => nomatch congrArg position hnext'
  | @step s' i' hrun' hi' =>
    have htrace := congrArg trace hnext'
    have henv := congrArg env hnext'
    obtain ⟨rfl, _⟩ := cons.inj htrace
    have hresult : P'.result ω s i = P.result ω s' i := by
      have h := congrFun henv i
      have hleft : (P'.execute ω s i).env i = P'.result ω s i := update_self _ _ _
      have hright : (P.execute ω s' i).env i = P.result ω s' i := update_self _ _ _
      rw [← hleft, ← hright]
      exact h
    have hargs : (P.insts i).args.map (read s'.env) = (P.insts i).args.map (read s.env) := by
      apply map_congr_left
      intro arg harg
      apply read_congr
      rintro y rfl
      have hne := hrun.ne_of_dom hssa hi (hssa.uses i hphi y harg)
      have h := congrFun henv y
      have hleft : (P'.execute ω s i).env y = s.env y := update_of_ne hne _ _
      have hright : (P.execute ω s' i).env y = s'.env y := update_of_ne hne _ _
      rw [← hleft, ← hright]
      exact h.symm
    rw [hresult, result_eval hphi hidentity, hargs, hv]
    rfl

theorem lt_of_eq_narrowed {a : BitVec 32} {bits : ℕ}
    (h : a = BitVec.ofNat 32 (a.toNat % 2 ^ bits)) : a.toNat < 2 ^ bits := by
  have hnat := congrArg BitVec.toNat h
  rw [BitVec.toNat_ofNat] at hnat
  omega

/-- **If the whole pass preserves the program, each round has lost nothing.** -/
theorem passFits_of_preserved (hssa : P.Ssa types) (h : Preserved P₀ P)
    (hs : Shrinks P₀ P) {ids : List ℕ} (hpass : Preserved P₀ (ids.foldl foldStep P)) :
    PassFits P₀ P ids := by
  induction ids generalizing P with
  | nil => trivial
  | cons i ids ih =>
    have hfits : NarrowingFits P₀ P i := by
      intro bits x hx ω s hrun0 hi
      rw [← hs.1] at hi
      have hrun := (h.runs ω s).mpr hrun0
      have hfold := foldInstruction_of_narrowing hx
      have hrep := foldInstruction_replacement hssa hfold
      have hclosed := hssa.closed_avail s.block s.position
      have hview := hrun.view hssa
      have hphi : (P.insts i).opcode ≠ .phi := by
        rcases narrowing_cases hx with ⟨_, hop, _⟩ | ⟨_, hop, _⟩
        · simp [hop]
        · simp [hop]
      have hin : P.ArgsIn (fun y => P.flow.Avail y s.block s.position) i :=
        fun value hvalue y hy => hssa.argsIn_dom hphi value hvalue y hy _ _ hi
      obtain ⟨a, ha, hresult⟩ := narrowing_result hssa hclosed hin hview hx
      have hscope := (foldInstruction_justified hssa hclosed hin hphi hfold).scope
      -- after the pass the instruction is a copy of the argument
      have hcopy : CopyOf ((i :: ids).foldl foldStep P) i (P.resolve x) := by
        show CopyOf (ids.foldl foldStep (P.foldStep i)) i (P.resolve x)
        apply CopyOf.foldl
        unfold foldStep
        rw [hfold]
        exact ⟨P.resolve x, replaceUsesWith_self, .inl rfl⟩
      have hshrinks := foldl_shrinks (P := P) (i :: ids)
      have hrun' := (hpass.runs ω s).mpr hrun0
      have hread : ((i :: ids).foldl foldStep P).result ω s i = .u32 a := by
        rw [hcopy.result (foldl_ssa hssa _) hrun', ← ha]
        · exact hview.resolveIn_read hssa hclosed _ hscope
        · rw [hshrinks.1]
          intro y hy
          exact hrep.scope y hy _ _ hi
      have hruns := fun ω s => (hpass.runs ω s).trans (h.runs ω s).symm
      have hvalue := result_of_runs hruns hssa hshrinks.1 hrun hi hresult
      have heq : a = BitVec.ofNat 32 (a.toNat % 2 ^ bits) :=
        Val.u32.inj (hread.symm.trans hvalue)
      rw [ha]
      exact lt_of_eq_narrowed heq
    have hstep := foldStep_preserved hssa (hfits.of_preserved h hs)
    exact ⟨hfits, ih (foldStep_ssa hssa i) (h.trans hstep hs foldStep_shrinks)
      (hs.trans foldStep_shrinks) hpass⟩

/-- **The pass preserves a program if and only if no conversion that it takes out together
with a narrowing one is executed while the narrowing one drops bits.** -/
theorem constantPropagationPass_preserves (P : Program) (types : ℕ → IRType) (hssa : P.Ssa types) :
    Preserved P P.constantPropagationPass ↔ PassFits P P P.blocks.flatten := by
  have hs : Shrinks P P := ⟨rfl, fun _ => Or.inl rfl⟩
  constructor
  · intro h
    exact passFits_of_preserved hssa (.refl P) hs h
  · intro h
    exact foldl_preserved hssa (.refl P) hs h

/-! ### Programs without branches -/

/-- One block with the instructions one after the other. -/
def straight (code : List Inst) : Program where
  insts n := code.getD n { opcode := .other 0 .void, args := [] }
  blocks := [List.range code.length]
  predecessors _ := []

/-- The types of the results, by the opcodes alone. -/
def opcodeTypes (P : Program) (n : ℕ) : IRType := (P.insts n).opcode.typeOf

variable {code : List Inst}

theorem straight_at {b k : ℕ} (h : (straight code).flow.At i b k) : b = 0 ∧ i = k := by
  cases b with
  | zero =>
    obtain ⟨hlt, hget⟩ := List.getElem?_eq_some_iff.mp h
    refine ⟨rfl, hget.symm.trans ?_⟩
    exact getElem_range _
  | succ b => nomatch h

theorem straight_path {b k : ℕ} {trace : List ℕ}
    (h : (straight code).flow.Path b k trace) : b = 0 ∧ ∀ y < k, y ∈ trace := by
  induction h with
  | start => exact ⟨rfl, fun y hy => absurd hy (Nat.not_lt_zero y)⟩
  | step h hi ih =>
    refine ⟨ih.1, fun y hy => ?_⟩
    rcases Nat.lt_succ_iff_lt_or_eq.mp hy with hlt | rfl
    · exact .tail _ (ih.2 y hlt)
    · rw [(straight_at hi).2]
      exact .head _
  | jump h hedge ih => nomatch hedge

/-- The instruction uses earlier ones, with the types that its opcode asks for. -/
abbrev UsesEarlier (types : ℕ → IRType) (n : ℕ) (inst : Inst) : Prop :=
  inst.opcode ≠ .phi ∧ inst.opcode ≠ .identity ∧
    (∀ arg ∈ inst.args, arg.tryInstruction.all (· < n)) ∧
    (inst.opcode.argTypes = none ∨
      inst.opcode.argTypes = some (inst.args.map (valueType types)))

/-- A program without branches is in static single assignment form if each instruction uses
earlier ones. -/
theorem straight_ssa (hcode : ∀ n < code.length,
      UsesEarlier (straight code).opcodeTypes n ((straight code).insts n)) :
    (straight code).Ssa (straight code).opcodeTypes := by
  have hinsts : ∀ n, UsesEarlier (straight code).opcodeTypes n ((straight code).insts n) := by
    intro n
    by_cases hn : n < code.length
    · exact hcode n hn
    · have hinst : (straight code).insts n = { opcode := .other 0 .void, args := [] } := by
        show code.getD n _ = _
        rw [getD_eq_getElem?_getD, getElem?_eq_none (Nat.le_of_not_lt hn)]
        rfl
      rw [hinst]
      exact ⟨by simp, by simp, by simp, .inl rfl⟩
  refine ⟨?_, ?_, ?_, ?_, ?_, ?_, ?_, ?_, ?_⟩
  · intro n b k b' k' h h'
    obtain ⟨rfl, rfl⟩ := straight_at h
    obtain ⟨rfl, rfl⟩ := straight_at h'
    exact ⟨rfl, rfl⟩
  · intro n _ y hy b k hat trace hpath
    obtain ⟨rfl, rfl⟩ := straight_at hat
    have hlt := (hinsts n).2.2.1 _ hy
    exact (straight_path hpath).2 y (by simpa [Value.tryInstruction] using hlt)
  · intro n b k _ hphi
    exact absurd hphi (hinsts n).1
  · intro n b k _ hphi
    exact absurd hphi (hinsts n).1
  · intro n b k _ hphi
    exact absurd hphi (hinsts n).1
  · intro n _ _
    refine ⟨rfl, fun arg_types h => ?_⟩
    rcases (hinsts n).2.2.2 with hnone | hsome
    · nomatch hnone.symm.trans h
    · exact Option.some.inj (hsome.symm.trans h)
  · intro n hphi
    exact absurd hphi (hinsts n).1
  · intro n hphi
    exact absurd hphi (hinsts n).1
  · intro n hidentity
    exact absurd hidentity (hinsts n).2.1

/-- The sum of a word and zero. -/
def addZero : Program := straight [
  { opcode := .other 0 .u32, args := [] },
  { opcode := .iAdd32, args := [.inst 0, .u32 0] },
  { opcode := .other 1 .void, args := [.inst 1] }]

theorem constantPropagationPass_preserves_addZero :
    Preserved addZero addZero.constantPropagationPass := by
  apply (constantPropagationPass_preserves addZero addZero.opcodeTypes
    (straight_ssa (by decide +kernel))).mpr
  refine ⟨?_, ?_, ?_, trivial⟩
  · exact fun bits x hx => nomatch hx
  · exact fun bits x hx => nomatch hx
  · exact fun bits x hx => nomatch hx

/-- The lower half of a word. -/
def lowHalf : Program := straight [
  { opcode := .other 0 .u32, args := [] },
  { opcode := .convertU16U32, args := [.inst 0] },
  { opcode := .convertU32U16, args := [.inst 1] },
  { opcode := .other 1 .void, args := [.inst 2] }]

/-- An input with more than 16 bits. -/
def wideInput : Oracle := fun _ _ _ => .u32 0x12345

/-- The runs of a program with `wideInput`, behind its first `n` instructions. -/
def wideRun (P : Program) : ℕ → RunState
  | 0 => runStart
  | n + 1 => P.execute wideInput (wideRun P n) n

/-- Before the pass the last instruction gets the lower half of the input, and afterwards the
whole input. -/
theorem constantPropagationPass_keeps_upper_half :
    lowHalf.Ssa lowHalf.opcodeTypes ∧
    (lowHalf.Run wideInput (lowHalf.wideRun 3) ∧
      lowHalf.argValues (lowHalf.wideRun 3) 3 = [.u32 0x2345]) ∧
    (lowHalf.constantPropagationPass.Run wideInput (lowHalf.constantPropagationPass.wideRun 3) ∧
      lowHalf.constantPropagationPass.argValues (lowHalf.constantPropagationPass.wideRun 3) 3 =
        [.u32 0x12345]) ∧
    ¬ Preserved lowHalf lowHalf.constantPropagationPass := by
  have hrun : lowHalf.Run wideInput (lowHalf.wideRun 3) := by
    apply Run.step _ (by decide +kernel)
    apply Run.step _ (by decide +kernel)
    exact .step .start (by decide +kernel)
  refine ⟨straight_ssa (by decide +kernel), ⟨hrun, by decide +kernel⟩, ⟨?_, by decide +kernel⟩, ?_⟩
  · apply Run.step _ (by decide +kernel)
    apply Run.step _ (by decide +kernel)
    exact .step .start (by decide +kernel)
  · intro h
    have huse := h.uses wideInput _ 3 hrun (by decide +kernel) (by decide +kernel)
    revert huse
    decide +kernel

end MagnusPS5.Shader.Program
