/-
Values of a program in static single assignment form.

A `ValueGraph` labels the items of a `Flow`: an operation with its arguments, a copy, or a
phi with an argument for each block that it is reached from. An operation is a function
of its label and arguments alone.
-/
import MagnusPS5.Lib.Dominance

namespace MagnusPS5.Lib

open Function (update)
open Function List

/-- What an item uses: a constant, or the value of an item. -/
inductive Arg (ι κ : Type*)
  | const (c : κ)
  | ref (i : ι)

/-- What an item computes. -/
inductive Node (ι κ α : Type*)
  | op (label : α) (args : List (Arg ι κ))
  | copy (arg : Arg ι κ)
  | phi (operands : List (ℕ × Arg ι κ))

/-- A flow whose items compute values. -/
structure ValueGraph (ι κ α : Type*) extends Flow ι where
  node : ι → Node ι κ α

/-- What the constants and the labels stand for. -/
structure Meaning (κ α V : Type*) where
  const : κ → V
  op : α → List V → V

namespace ValueGraph

variable {ι κ α V : Type*} [DecidableEq ι]

/-- The operand of a phi for the block that it is reached from. -/
def operand (operands : List (ℕ × Arg ι κ)) (p : ℕ) : Option (Arg ι κ) :=
  (operands.find? fun operand => operand.1 = p).map Prod.snd

/-! ## Executions -/

/-- A place, the items passed, the value of each item when it was last executed, these
values at the start of the block, and the block that the execution comes from. -/
structure State (ι V : Type*) where
  block : ℕ
  position : ℕ
  trace : List ι
  env : ι → V
  entry_env : ι → V
  pred : Option ℕ

def read (M : Meaning κ α V) (env : ι → V) : Arg ι κ → V
  | .const c => M.const c
  | .ref i => env i

variable (G : ValueGraph ι κ α)

/-- What the item has if it is executed. -/
def result (M : Meaning κ α V) (s : State ι V) (i : ι) : V :=
  match G.node i with
  | .op label args => M.op label (args.map (read M s.env))
  | .copy arg => read M s.env arg
  | .phi operands =>
    ((s.pred.bind (operand operands)).map (read M s.entry_env)).getD (s.env i)

def execute (M : Meaning κ α V) (s : State ι V) (i : ι) : State ι V :=
  { s with
    position := s.position + 1
    trace := i :: s.trace
    env := update s.env i (G.result M s i) }

def enter (s : State ι V) (c : ℕ) : State ι V :=
  { s with block := c, position := 0, entry_env := s.env, pred := some s.block }

/-- The execution at its start, whatever the items have had before. -/
def start (env : ι → V) : State ι V :=
  { block := 0, position := 0, trace := [], env := env, entry_env := env, pred := none }

/-- The states of all executions. -/
inductive Execution (G : ValueGraph ι κ α) (M : Meaning κ α V) : State ι V → Prop
  | start (env : ι → V) : Execution G M (start env)
  | step {s : State ι V} {i : ι} (h : Execution G M s) (hi : G.At i s.block s.position) :
      Execution G M (G.execute M s i)
  | jump {s : State ι V} {c : ℕ} (h : Execution G M s)
      (hend : s.position = (G.code s.block).length) (hedge : G.edge s.block c) :
      Execution G M (enter s c)

/-! ## Static single assignment form -/

/-- The item uses another one where it is executed. -/
inductive Uses : Node ι κ α → ι → Prop
  | op {label : α} {args : List (Arg ι κ)} {y : ι} (h : .ref y ∈ args) : Uses (.op label args) y
  | copy {y : ι} : Uses (.copy (.ref y)) y

/-- Every use is dominated by what it uses; a phi has an operand for each way into its block
and for no other, and what it uses is available there; the entry has no phi. -/
structure Valid (G : ValueGraph ι κ α) : Prop where
  unique : G.Unique
  uses : ∀ i y, Uses (G.node i) y → G.Dom y i
  phi_entry : ∀ i b k operands, G.At i b k → G.node i = .phi operands → b ≠ 0
  phi_blocks : ∀ i b k operands, G.At i b k → G.node i = .phi operands →
    ∀ p, p ∈ operands.map Prod.fst ↔ G.edge p b
  phi_uses : ∀ i b k operands, G.At i b k → G.node i = .phi operands →
    ∀ p y, (p, .ref y) ∈ operands → G.Avail y p (G.code p).length

variable {G : ValueGraph ι κ α} {M : Meaning κ α V} {s : State ι V} {i j : ι} {a b : Arg ι κ}

/-- What an argument uses is available. -/
def ArgAvail (a : Arg ι κ) (b k : ℕ) : Prop :=
  ∀ y, a = .ref y → G.Avail y b k

variable {operands : List (ℕ × Arg ι κ)} {p k : ℕ} {env env' : ι → V}

omit [DecidableEq ι] in
theorem operand_mem (h : operand operands p = some a) : (p, a) ∈ operands := by
  obtain ⟨⟨p', a'⟩, hfind, rfl⟩ := Option.map_eq_some_iff.mp h
  obtain rfl : p' = p := by simpa using find?_some hfind
  exact mem_of_find?_eq_some hfind

omit [DecidableEq ι] in
theorem exists_operand (h : p ∈ operands.map Prod.fst) : ∃ a, operand operands p = some a := by
  obtain ⟨⟨p', a⟩, hmem, rfl⟩ := mem_map.mp h
  unfold operand
  cases hfind : operands.find? fun operand => operand.1 = p' with
  | some found => exact ⟨found.2, rfl⟩
  | none =>
    have hne := find?_eq_none.mp hfind _ hmem
    simp at hne

omit [DecidableEq ι] in
theorem result_phi (hnode : G.node i = .phi operands)
    (hpred : s.pred = some p) (ha : operand operands p = some a) :
    G.result M s i = read M s.entry_env a := by
  simp [result, hnode, hpred, ha]

/-! ## Where an execution comes from -/

/-- The block is the entry, or the execution has come from the end of another block, where `Q`
was true. -/
structure Origin (G : ValueGraph ι κ α) (M : Meaning κ α V) (Q : State ι V → Prop)
    (s : State ι V) : Prop where
  entry : s.pred = none → s.block = 0
  arrived : ∀ p, s.pred = some p → ∃ s₀, G.Execution M s₀ ∧ Q s₀ ∧ s₀.block = p ∧
    s₀.position = (G.code p).length ∧ s₀.env = s.entry_env ∧ G.edge p s.block

theorem Execution.rec_entry {Q : State ι V → Prop} (hstart : ∀ env, Q (ValueGraph.start env))
    (hstep : ∀ s i, G.Execution M s → G.At i s.block s.position → Q s → G.Origin M Q s →
      Q (G.execute M s i)) (hjump : ∀ s c, G.Execution M s → s.position = (G.code s.block).length →
      G.edge s.block c → Q s → Q (ValueGraph.enter s c))
    (h : G.Execution M s) : Q s ∧ G.Origin M Q s := by
  induction h with
  | start env => exact ⟨hstart env, fun _ => rfl, fun p hp => nomatch hp⟩
  | step h hi ih => exact ⟨hstep _ _ h hi ih.1 ih.2, ih.2.entry, ih.2.arrived⟩
  | @jump s c h hend hedge ih =>
    refine ⟨hjump _ _ h hend hedge ih.1, ⟨nofun, fun p hp => ?_⟩⟩
    cases hp
    exact ⟨s, h, ih.1, rfl, hend, rfl, hedge⟩

theorem Execution.path (h : G.Execution M s) : G.Path s.block s.position s.trace := by
  induction h with
  | start env => exact .start
  | step h hi ih => exact .step ih hi
  | jump h hend hedge ih =>
    rw [hend] at ih
    exact .jump ih hedge

omit [DecidableEq ι] in
theorem not_avail_start : ¬ G.Avail i 0 0 := fun h => not_mem_nil (h [] .start)

theorem Origin.phi_operand {Q : State ι V → Prop} (hvalid : G.Valid) (h : G.Origin M Q s)
    (hi : G.At i s.block s.position) (hnode : G.node i = .phi operands) :
    ∃ p a s0, s.pred = some p ∧ operand operands p = some a ∧ G.Execution M s0 ∧ Q s0 ∧
      s0.block = p ∧ s0.position = (G.code p).length ∧ s0.env = s.entry_env ∧
      G.edge p s.block ∧ G.ArgAvail a p (G.code p).length := by
  cases hpred : s.pred with
  | none => exact absurd (h.entry hpred) (hvalid.phi_entry _ _ _ _ hi hnode)
  | some p =>
    obtain ⟨s0, h1, h2, h3, h4, h5, h6⟩ := h.arrived p hpred
    obtain ⟨a, ha⟩ := exists_operand ((hvalid.phi_blocks _ _ _ _ hi hnode p).mpr h6)
    refine ⟨p, a, s0, rfl, ha, h1, h2, h3, h4, h5, h6, ?_⟩
    rintro y rfl
    exact hvalid.phi_uses _ _ _ _ hi hnode p y (operand_mem ha)

theorem Execution.untouched (h : G.Execution M s) (hout : ∀ k, ¬ G.At i s.block k) :
    s.env i = s.entry_env i := by
  induction h with
  | start | jump => rfl
  | @step s j h hj ih =>
    have hne : i ≠ j := by
      rintro rfl
      exact hout _ hj
    exact (update_of_ne hne _ _).trans (ih hout)

theorem Execution.phi_executed (h : G.Execution M s) (hi : G.At i s.block k) (hk : k < s.position)
    (hnode : G.node i = .phi operands) (hpred : s.pred = some p)
    (ha : operand operands p = some a) : s.env i = read M s.entry_env a := by
  induction h with
  | start env => nomatch hpred
  | @step s j h hj ih =>
    by_cases hij : i = j
    · subst hij
      exact (update_self _ _ _).trans (result_phi hnode hpred ha)
    · refine (update_of_ne hij _ _).trans (ih hi ?_ hpred)
      -- the item executed last is another one
      refine (Nat.lt_or_eq_of_le (Nat.le_of_lt_succ hk)).resolve_right ?_
      rintro rfl
      exact hij (Option.some.inj (hi.symm.trans hj))
  | jump h hend hedge ih => exact absurd hk (Nat.not_lt_zero _)

/-! ## What an available item has -/

/-- What an item that is no phi makes of the values of others. -/
def value (M : Meaning κ α V) (env : ι → V) (i : ι) : Option V :=
  match G.node i with
  | .op label args => some (M.op label (args.map (read M env)))
  | .copy arg => some (read M env arg)
  | .phi _ => none

omit [DecidableEq ι] in
theorem read_congr (h : ∀ y, a = .ref y → env y = env' y) : read M env a = read M env' a := by
  cases a with
  | const c => rfl
  | ref y => exact h y rfl

omit [DecidableEq ι] in
theorem value_congr (h : ∀ y, Uses (G.node i) y → env y = env' y) :
    G.value M env i = G.value M env' i := by
  unfold value
  split
  next label args hnode =>
    have hargs : args.map (read M env) = args.map (read M env') :=
      map_congr_left fun a ha => read_congr fun y hy => h y (hnode ▸ .op (hy ▸ ha))
    rw [hargs]
  next arg hnode =>
    rw [read_congr fun y hy => h y (by rw [hnode, hy]; exact .copy)]
  · rfl

omit [DecidableEq ι] in
theorem value_result {v : V} (h : G.value M s.env i = some v) : G.result M s i = v := by
  unfold value at h
  unfold result
  split at h
  · exact Option.some.inj h
  · exact Option.some.inj h
  · nomatch h

theorem Execution.not_uses_after (hvalid : G.Valid) (h : G.Execution M s)
    (hj : G.At j s.block s.position) (havail : G.Avail i s.block (s.position + 1)) : ¬ G.Dom j i :=
  fun hdom => hvalid.unique.not_avail_after hj hdom h.path havail

/-- **An available item has what its arguments, as they are, make of it.** -/
theorem Execution.settled (hvalid : G.Valid) (h : G.Execution M s)
    (havail : G.Avail i s.block s.position) {v : V} (hv : G.value M s.env i = some v) :
    s.env i = v := by
  induction h generalizing v with
  | start env => exact absurd havail not_avail_start
  | @step s j h hj ih =>
    have hsame : G.value M (G.execute M s j).env i = G.value M s.env i := by
      refine value_congr fun y hy => update_of_ne ?_ _ _
      rintro rfl
      by_cases hyi : y = i
      · subst hyi
        exact hvalid.unique.not_dom_self hj h.path (hvalid.uses _ _ hy)
      · exact h.not_uses_after hvalid hj havail (hvalid.uses _ _ hy)
    rw [hsame] at hv
    by_cases hij : i = j
    · subst hij
      exact (update_self _ _ _).trans (value_result hv)
    · exact (update_of_ne hij _ _).trans (ih (havail.of_step hj hij) hv)
  | jump h hend hedge ih =>
    refine ih ?_ hv
    rw [hend]
    exact havail.jump hedge

/-! ## Copies -/

/-- An argument, and what it is a copy of. -/
inductive Copies (G : ValueGraph ι κ α) : Arg ι κ → Arg ι κ → Prop
  | refl (a : Arg ι κ) : Copies G a a
  | step {i : ι} {a b : Arg ι κ} (hnode : G.node i = .copy a) (h : Copies G a b) :
      Copies G (.ref i) b

omit [DecidableEq ι] in
theorem Copies.avail (hvalid : G.Valid) {c : ℕ} (h : G.Copies a b) (ha : G.ArgAvail a c k) :
    G.ArgAvail b c k := by
  induction h with
  | refl a => exact ha
  | @step i a b hnode h ih =>
    refine ih fun y hy => (ha i rfl).of_dom (hvalid.uses i y ?_)
    rw [hnode, hy]
    exact .copy

theorem Copies.read_eq (hvalid : G.Valid) (hs : G.Execution M s) (h : G.Copies a b)
    (ha : G.ArgAvail a s.block s.position) : read M s.env a = read M s.env b := by
  induction h with
  | refl a => rfl
  | @step i a b hnode h ih =>
    have hcopy : s.env i = read M s.env a :=
      hs.settled hvalid (ha i rfl) (by simp [value, hnode])
    refine hcopy.trans (ih fun y hy => (ha i rfl).of_dom (hvalid.uses i y ?_))
    rw [hnode, hy]
    exact .copy

end ValueGraph

end MagnusPS5.Lib
