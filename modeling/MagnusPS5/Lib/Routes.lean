/-
Routes through a graph, and what all of them pass.

A `Route` lists the nodes from its start to its end. `Passes link stop a d` says that every
route from `a` to a node where routes stop passes `d`. It is the greatest solution of the
equations that a data-flow analysis iterates: a stop passes itself only, and another node
passes itself and what all nodes behind it pass. An iteration that starts at the top and
keeps what all routes pass has arrived there when it has solved the equations
(`Solves.passes`).
-/
import Mathlib.Data.List.Basic
import Mathlib.Data.Set.Basic

namespace MagnusPS5.Lib

variable {α : Type*} {link : α → α → Prop} {a b c d : α} {l l' : List α}

/-! ## Routes -/

/-- The nodes on a way from one node to another one, both of them included. -/
inductive Route (link : α → α → Prop) : α → α → List α → Prop
  | here (a : α) : Route link a a [a]
  | step {a b c : α} {l : List α} (h : link a b) (rest : Route link b c l) :
      Route link a c (a :: l)

namespace Route

section

variable (h : Route link a b l)

include h

theorem start_mem : a ∈ l := by
  cases h with
  | here | step => exact .head _

theorem snoc (hlink : link b c) : Route link a c (l ++ [c]) := by
  induction h with
  | here a => exact step hlink (here c)
  | step hfirst _ ih => exact step hfirst (ih hlink)

theorem reverse : Route (fun x y => link y x) b a l.reverse := by
  induction h with
  | here a => exact here a
  | step hfirst _ ih =>
    rw [List.reverse_cons]
    exact ih.snoc hfirst

theorem from_mem (hd : d ∈ l) : ∃ rest, Route link d b rest ∧ ∀ x ∈ rest, x ∈ l := by
  induction h with
  | here a =>
    obtain rfl := List.mem_singleton.mp hd
    exact ⟨_, here d, fun x hx => hx⟩
  | @step a b c l hfirst htail ih =>
    rcases List.mem_cons.mp hd with rfl | hd
    · exact ⟨_, step hfirst htail, fun x hx => hx⟩
    · obtain ⟨rest, hrest, hsub⟩ := ih hd
      exact ⟨rest, hrest, fun x hx => .tail _ (hsub x hx)⟩

theorem start_mem_of_closed {s : Set α} (hb : b ∈ s)
    (hclosed : ∀ x y, link x y → y ∈ s → y ∈ l → x ∈ s) : a ∈ s := by
  induction h with
  | here a => exact hb
  | @step a b c l hfirst htail ih =>
    have hnext := ih hb fun x y hxy hy hl => hclosed x y hxy hy (.tail _ hl)
    exact hclosed a b hfirst hnext (.tail _ htail.start_mem)

end

end Route

/-! ## What all routes pass -/

/-- Every route from a node to a stop passes another node. -/
def Passes (link : α → α → Prop) (stop : α → Prop) (a d : α) : Prop :=
  ∀ b l, stop b → Route link a b l → d ∈ l

variable {stop : α → Prop} {D : α → Set α}

theorem Passes.of_stop (h : Passes link stop a d) (hstop : stop a) : d = a :=
  List.mem_singleton.mp (h a [a] hstop (.here a))

theorem Passes.next (h : Passes link stop a d) (hne : d ≠ a) (hlink : link a b) :
    Passes link stop b d := by
  intro c l hstop hroute
  have hmem := h c (a :: l) hstop (.step hlink hroute)
  exact (List.mem_cons.mp hmem).resolve_left hne

/-- Of the nodes that all routes pass, one comes before the others on every route. -/
theorem Passes.first {nodes : List α} (hne : nodes ≠ []) (hroute : Route link a b l)
    (hstop : stop b) (h : ∀ d ∈ nodes, Passes link stop a d) :
    ∃ m ∈ nodes, ∀ d ∈ nodes, Passes link stop m d := by
  induction hroute with
  | here a =>
    obtain ⟨m, hm⟩ := List.exists_mem_of_ne_nil _ hne
    exact ⟨m, hm, (h m hm).of_stop hstop ▸ h⟩
  | @step a _ _ _ hlink _ ih =>
    by_cases ha : a ∈ nodes
    · exact ⟨a, ha, h⟩
    · exact ih hstop fun d hd => (h d hd).next (ne_of_mem_of_not_mem hd ha) hlink

/-- The sets are a solution of the equations of the analysis, at least downwards. -/
def Solves (link : α → α → Prop) (stop : α → Prop) (D : α → Set α) : Prop :=
  ∀ a, ∀ d ∈ D a, d = a ∨ (¬ stop a ∧ ∀ b, link a b → d ∈ D b)

theorem Solves.passes (h : Solves link stop D) (hd : d ∈ D a) : Passes link stop a d := by
  intro b l hstop hroute
  induction hroute with
  | here a =>
    rcases h a d hd with rfl | ⟨hnot, _⟩
    · exact List.mem_singleton_self _
    · exact absurd hstop hnot
  | @step a b c l hfirst htail ih =>
    rcases h a d hd with rfl | ⟨_, hnext⟩
    · exact .head _
    · exact .tail _ (ih (hnext b hfirst) hstop)

end MagnusPS5.Lib
