/-
A log of writes, each of one value to many keys, and the value that each key has in the
end.

`written` is the value of a key after a log, and `lastWrite` the value of the last write
that covers it. A log is `Settled` for the keys that are watched when this is the value that
each of them needs. A batch of writes keeps it so if it writes nothing but what a key needs,
and leaves out no key whose need is new (`Settled.append`).
-/
import Mathlib.Tactic.Common

namespace MagnusPS5.Lib

variable {ω κ β : Type*}

section Written

variable (covers : ω → κ → Bool) (value : ω → β)

/-- The value of a key after a log, from the one that it has before. -/
def written (log : List ω) (k : κ) (before : β) : β :=
  log.foldl (fun last w => if covers w k then value w else last) before

theorem written_of_not_covers {log : List ω} {k : κ} (h : ∀ w ∈ log, covers w k = false)
    (before : β) : written covers value log k before = before := by
  induction log generalizing before with
  | nil => rfl
  | cons w log ih =>
    unfold written
    rw [List.foldl_cons, h w List.mem_cons_self, if_neg (by simp)]
    exact ih (fun w hw => h w (.tail _ hw)) before

/-- What was there before is lost where some write covers the key and all that do write the
same. -/
theorem written_of_exact {log : List ω} {k : κ} {b : β}
    (h : ∀ w ∈ log, covers w k = true → value w = b) (hsome : ∃ w ∈ log, covers w k = true)
    (before : β) : written covers value log k before = b := by
  induction log generalizing before with
  | nil =>
    obtain ⟨w, hw, -⟩ := hsome
    exact nomatch hw
  | cons w log ih =>
    have hrest : ∀ w ∈ log, covers w k = true → value w = b :=
      fun w hw => h w (.tail _ hw)
    unfold written
    rw [List.foldl_cons]
    by_cases hlater : ∃ w ∈ log, covers w k = true
    · exact ih hrest hlater _
    · -- then it is the first write that covers the key
      have hnone : ∀ w ∈ log, covers w k = false := by
        intro w hw
        rw [← Bool.not_eq_true]
        exact fun hcovers => hlater ⟨w, hw, hcovers⟩
      have hleft := written_of_not_covers covers value hnone
      unfold written at hleft
      rw [hleft]
      obtain ⟨w', hw', hcovers⟩ := hsome
      rcases List.mem_cons.mp hw' with rfl | hmem
      · rw [if_pos hcovers, h _ List.mem_cons_self hcovers]
      · exact absurd ⟨w', hmem, hcovers⟩ hlater

theorem written_append (log ws : List ω) (k : κ) (before : β) :
    written covers value (log ++ ws) k before =
      written covers value ws k (written covers value log k before) :=
  List.foldl_append

end Written

section LastWrite

variable (covers : ω → κ → Bool) (value : ω → β)

/-- What the last write that covers the key has written. -/
def lastWrite (log : List ω) (k : κ) : Option β :=
  written covers (fun w => some (value w)) log k none

theorem lastWrite_concat (log : List ω) (w : ω) (k : κ) :
    lastWrite covers value (log ++ [w]) k =
      if covers w k then some (value w) else lastWrite covers value log k := by
  unfold lastWrite
  rw [written_append]
  rfl

theorem lastWrite_of_exact {before after : List ω} {w : ω} {k : κ} (hw : covers w k = true)
    (hafter : ∀ w' ∈ after, covers w' k = true → value w' = value w) :
    lastWrite covers value (before ++ w :: after) k = some (value w) := by
  unfold lastWrite
  rw [written_append]
  apply written_of_exact
  · intro w' hw' hcovers
    rcases List.mem_cons.mp hw' with rfl | hmem
    · rfl
    · exact congrArg some (hafter w' hmem hcovers)
  · exact ⟨w, .head _, hw⟩

/-- Each watched key has the value it needs. -/
def Settled (watched : κ → Prop) (needs : κ → β) (log : List ω) : Prop :=
  ∀ k, watched k → lastWrite covers value log k = some (needs k)

variable {covers value}

/-- **One batch of writes.** -/
theorem Settled.append {watched watched' : κ → Prop} {needs needs' : κ → β} {log ws : List ω}
    (h : Settled covers value watched needs log)
    (hexact : ∀ w ∈ ws, ∀ k, covers w k = true → value w = needs' k) (hedge : ∀ k, watched' k →
      (watched k ∧ needs' k = needs k) ∨ ∃ w ∈ ws, covers w k = true) :
    Settled covers value watched' needs' (log ++ ws) := by
  intro k hk
  unfold lastWrite
  rw [written_append]
  by_cases hsome : ∃ w ∈ ws, covers w k = true
  · exact written_of_exact covers _ (fun w hw hcovers => congrArg some (hexact w hw k hcovers))
      hsome _
  · have hnone : ∀ w ∈ ws, covers w k = false := by
      intro w hw
      rw [← Bool.not_eq_true]
      exact fun hcovers => hsome ⟨w, hw, hcovers⟩
    rw [written_of_not_covers covers _ hnone]
    rcases hedge k hk with ⟨hwatched, hneeds⟩ | hcovered
    · rw [hneeds]
      exact h k hwatched
    · exact absurd hcovered hsome

end LastWrite

end MagnusPS5.Lib
