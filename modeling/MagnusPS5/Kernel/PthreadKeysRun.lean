/-
The clean-up of thread-specific data, over every behaviour of the destructors.

The invariant of a run is a balance. For each value under a key: the calls made, the calls that
wait in `delete_list` and the entries still in the keys are together no more than the entries at
the start and the values stored since. Each step of a run keeps it.

The loop returns as soon as a round finds nothing to call, before the entries of the thread
are erased, so the clean-up is complete exactly if no entry is left then.
-/
import MagnusPS5.Kernel.PthreadKeys

namespace MagnusPS5.Kernel.PthreadKeys

open List Function KeyOp Option Nat Balanced Run

variable {t : ℤ} {keys : Keys} {info : CallInfo} {behaviour : Behaviour} {r : Run}

/-! ## Lists of calls -/

theorem of_mem_calls {key : Key} {index : Fin KEYS_MAX} (h : info ∈ key.calls t index) :
    info.key = index ∧ info.destructor ≠ 0 ∧ info.data ≠ 0 := by
  unfold Key.calls at h
  by_cases hkey : key.used = true ∧ key.destructor ≠ 0
  · rw [if_pos hkey] at h
    obtain ⟨v, hv, rfl⟩ := mem_map.mp h
    have hfilter := (mem_filter.mp hv).2
    rw [decide_eq_true_eq] at hfilter
    exact ⟨rfl, hkey.2, hfilter.2⟩
  · rw [if_neg hkey] at h
    cases h

theorem count_deleteList (t : ℤ) (keys : Keys) (info : CallInfo) :
    (deleteList t keys).count info = ((keys info.key).calls t info.key).count info := by
  unfold deleteList
  rw [count_flatMap, ← Fin.sum_univ_def, Finset.sum_eq_single info.key]
  · rfl
  · intro index _ hne
    apply count_eq_zero_of_not_mem
    intro hmem
    exact hne (of_mem_calls hmem).1.symm
  · exact fun h => absurd (Finset.mem_univ _) h

theorem real_of_mem_deleteList (h : info ∈ deleteList t keys) :
    info.destructor ≠ 0 ∧ info.data ≠ 0 := by
  obtain ⟨index, -, hmem⟩ := mem_flatMap.mp h
  exact (of_mem_calls hmem).2

theorem deleteList_collected (t : ℤ) (keys : Keys) : deleteList t (collected t keys) = [] := by
  unfold deleteList
  rw [flatMap_eq_nil_iff]
  intro index _
  unfold collected Key.calls
  by_cases hkey : (keys index).used = true ∧ (keys index).destructor ≠ 0
  · rw [if_pos hkey, if_pos hkey, map_eq_nil_iff, filter_eq_nil_iff]
    intro v hv
    obtain ⟨v', -, rfl⟩ := mem_map.mp hv
    by_cases hdata : v'.thread_id = t ∧ v'.data ≠ 0
    · simp [hdata]
    · rw [if_neg hdata, decide_eq_true_eq]
      exact hdata
  · rw [if_neg hkey, if_neg hkey]

/-! ## The values of the other threads -/

theorem purged_update (index : Fin KEYS_MAX) (key : Key) :
    purged t (update keys index key) = update (purged t keys) index
      { key with specific_values := key.specific_values.filter fun v => v.thread_id ≠ t } := by
  funext i
  by_cases hi : i = index
  · subst hi
    simp [purged]
  · simp [purged, update_of_ne hi]

theorem filter_setValue_self (data : Pointer) (values : List Map) :
    (setValue t data values).filter (fun v => v.thread_id ≠ t) =
      values.filter fun v => v.thread_id ≠ t := by
  induction values with
  | nil => simp [setValue]
  | cons v rest ih => by_cases hv : v.thread_id = t <;> simp_all [setValue]

theorem filter_setValue_of_ne {thread : ℤ} (hne : thread ≠ t) (data : Pointer) (values : List Map) :
    (setValue thread data values).filter (fun v => v.thread_id ≠ t) =
      setValue thread data (values.filter fun v => v.thread_id ≠ t) := by
  induction values with
  | nil => simp [setValue, hne]
  | cons v rest ih =>
    by_cases hv : v.thread_id = thread
    · simp [setValue, hv, hne]
    · by_cases ht : v.thread_id = t <;> simp_all [setValue]

theorem usedKey_purged (t : ℤ) (keys : Keys) (key : ℤ) :
    usedKey (purged t keys) key = usedKey keys key := rfl

theorem purged_purged (t : ℤ) (keys : Keys) : purged t (purged t keys) = purged t keys := by
  funext index
  simp [purged]

theorem purged_collected (t : ℤ) (keys : Keys) : purged t (collected t keys) = purged t keys := by
  funext index
  unfold purged collected
  by_cases hkey : (keys index).used = true ∧ (keys index).destructor ≠ 0
  · rw [if_pos hkey]
    induction (keys index).specific_values with
    | nil => rfl
    | cons v rest ih =>
      by_cases ht : v.thread_id = t <;> by_cases hd : v.data = 0 <;> simp_all
  · rw [if_neg hkey]

theorem purged_apply (t : ℤ) (keys : Keys) (op : KeyOp) :
    purged t (op.apply keys) = purged t (op.apply (purged t keys)) := by
  cases op with
  | create destructor =>
    have hfind : ((finRange KEYS_MAX).find? fun index => !(purged t keys index).used) =
        (finRange KEYS_MAX).find? fun index => !(keys index).used := rfl
    simp only [apply, create, hfind]
    cases (finRange KEYS_MAX).find? fun index => !(keys index).used with
    | none => exact (purged_purged t keys).symm
    | some index =>
      simp only [map_some, getD_some, purged_update, purged_purged]
  | delete key =>
    simp only [apply, delete, usedKey_purged]
    cases usedKey keys key with
    | none => exact (purged_purged t keys).symm
    | some index =>
      simp only [map_some, getD_some, purged_update, purged_purged]
  | set key thread data =>
    simp only [apply, set, usedKey_purged]
    cases usedKey keys key with
    | none => exact (purged_purged t keys).symm
    | some index =>
      simp only [map_some, getD_some, purged_update, purged_purged]
      congr 2
      by_cases hthread : thread = t
      · subst hthread
        rw [filter_setValue_self, filter_setValue_self]
        simp [purged]
      · rw [filter_setValue_of_ne hthread, filter_setValue_of_ne hthread]
        simp [purged]

theorem purged_apply_congr {keys' : Keys} (h : purged t keys = purged t keys') (op : KeyOp) :
    purged t (op.apply keys) = purged t (op.apply keys') := by
  rw [purged_apply, h, ← purged_apply]

theorem stored_congr {keys' : Keys} (h : purged t keys = purged t keys') (op : KeyOp) :
    op.stored t keys = op.stored t keys' := by
  have hstored (keys : Keys) : op.stored t (purged t keys) = op.stored t keys := by
    cases op <;> rfl
  rw [← hstored keys, h, hstored]

/-! ## What an operation stores -/

theorem count_calls_setValue (key : Key) (index : Fin KEYS_MAX) (thread : ℤ) (data : Pointer)
    (info : CallInfo) :
    ({ key with specific_values := setValue thread data key.specific_values }.calls t index).count
        info ≤
      (key.calls t index).count info +
        (if thread = t then [⟨index, key.destructor, data⟩] else []).count info := by
  unfold Key.calls
  by_cases hkey : key.used = true ∧ key.destructor ≠ 0
  · rw [if_pos hkey, if_pos hkey]
    by_cases ht : thread = t
    · subst ht
      induction key.specific_values with
      | nil => by_cases hd : data = 0 <;> simp [setValue, hd]
      | cons v rest ih =>
        by_cases hv : v.thread_id = thread
        · by_cases hd : data = 0
          · by_cases hd' : v.data = 0
            · simp [setValue, hv, hd, hd']
            · simp [setValue, hv, hd, hd', count_cons]
              omega
          · by_cases hd' : v.data = 0 <;> simp [setValue, hv, hd, hd', count_cons]
        · simp [setValue, hv, count_cons] at ih ⊢
          exact ih
    · induction key.specific_values with
      | nil => simp [setValue, ht]
      | cons v rest ih =>
        by_cases hv : v.thread_id = thread
        · simp [setValue, hv, ht]
        · by_cases hv' : v.thread_id = t ∧ v.data ≠ 0 <;>
            simp [setValue, hv, ht, Ne.symm ht, hv', count_cons] at ih ⊢ <;> omega
  · rw [if_neg hkey, if_neg hkey]
    exact zero_le _

theorem count_deleteList_update {index : Fin KEYS_MAX} {key : Key} {added : List CallInfo}
    (h : (key.calls t index).count info ≤
      ((keys index).calls t index).count info + added.count info) :
    (deleteList t (update keys index key)).count info ≤
      (deleteList t keys).count info + added.count info := by
  rw [count_deleteList, count_deleteList]
  by_cases hindex : info.key = index
  · subst hindex
    rw [update_self]
    exact h
  · rw [update_of_ne hindex]
    exact le_add_right _ _

theorem count_deleteList_apply (t : ℤ) (keys : Keys) (op : KeyOp) (info : CallInfo) :
    (deleteList t (op.apply keys)).count info ≤
      (deleteList t keys).count info + (op.stored t keys).count info := by
  have hcleared (index : Fin KEYS_MAX) (used : Bool) (destructor : Pointer) :
      Key.calls t index ⟨used, destructor, []⟩ = [] := ite_self []
  cases op with
  | create destructor =>
    simp only [apply, create]
    cases (finRange KEYS_MAX).find? fun index => !(keys index).used with
    | none => exact le_add_right _ _
    | some index =>
      apply count_deleteList_update
      rw [hcleared]
      exact zero_le _
  | delete key =>
    simp only [apply, delete]
    cases usedKey keys key with
    | none => exact le_add_right _ _
    | some index =>
      apply count_deleteList_update
      rw [hcleared]
      exact Nat.zero_le _
  | set key thread data =>
    simp only [KeyOp.apply, set, KeyOp.stored]
    cases usedKey keys key with
    | none => exact Nat.le_add_right _ _
    | some index =>
      apply count_deleteList_update
      exact count_calls_setValue (keys index) index thread data info

theorem stored_append (keys : Keys) (ops : List KeyOp) (op : KeyOp) :
    stored t keys (ops ++ [op]) = stored t keys ops ++ op.stored t (replay keys ops) := by
  induction ops generalizing keys with
  | nil => simp [stored, replay]
  | cons first rest ih =>
    rw [cons_append, stored, stored, ih, append_assoc]
    rfl

/-! ## The balance of a run -/

/-- What holds between two steps, with the calls that are still to be made. -/
structure Balanced (t : ℤ) (keys : Keys) (r : Run) (pending : List CallInfo) : Prop where
  real : ∀ info ∈ calls r.events ++ pending, info.destructor ≠ 0 ∧ info.data ≠ 0
  accounted : ∀ events, events <+: r.events → ∀ info,
    (calls events).count info ≤
      (deleteList t keys ++ stored t keys (ops events)).count info
  balance : ∀ info,
    (calls r.events).count info + pending.count info + (deleteList t r.keys).count info ≤
      (deleteList t keys ++ stored t keys (ops r.events)).count info
  others : purged t r.keys = purged t (replay keys (ops r.events))

theorem calls_append (events : List Event) (event : Event) :
    calls (events ++ [event]) = calls events ++ calls [event] := filterMap_append

theorem ops_append (events : List Event) (event : Event) :
    ops (events ++ [event]) = ops events ++ ops [event] := filterMap_append

theorem accounted_append {events : List Event} {event : Event}
    (h : ∀ before, before <+: events → ∀ info, (calls before).count info ≤
      (deleteList t keys ++ stored t keys (ops before)).count info)
    (hlast : ∀ info, (calls (events ++ [event])).count info ≤
      (deleteList t keys ++ stored t keys (ops (events ++ [event]))).count info) :
    ∀ before, before <+: events ++ [event] → ∀ info, (calls before).count info ≤
      (deleteList t keys ++ stored t keys (ops before)).count info := by
  intro before hbefore
  rcases prefix_concat_iff.mp hbefore with rfl | hprefix
  · exact hlast
  · exact h before hprefix

variable {pending : List CallInfo}

theorem Balanced.operate (h : Balanced t keys r pending) (op : KeyOp) :
    Balanced t keys (r.operate op) pending := by
  have hcalls : calls (r.events ++ [.op op]) = calls r.events := by
    rw [calls_append]
    exact append_nil _
  have hops : ops (r.events ++ [.op op]) = ops r.events ++ [op] := ops_append _ _
  have hstored : stored t keys (ops (r.events ++ [.op op])) =
      stored t keys (ops r.events) ++ op.stored t r.keys := by
    rw [hops, stored_append, stored_congr h.others]
  have hbalance (info : CallInfo) :
      (calls (r.events ++ [.op op])).count info + pending.count info +
          (deleteList t (op.apply r.keys)).count info ≤
        (deleteList t keys ++ stored t keys (ops (r.events ++ [.op op]))).count info := by
    have hbefore := h.balance info
    have hstep := count_deleteList_apply t r.keys op info
    rw [hcalls, hstored]
    simp only [count_append] at hbefore ⊢
    omega
  refine ⟨?_, accounted_append h.accounted fun info => ?_, hbalance, ?_⟩
  · intro info hmem
    apply h.real info
    rwa [← hcalls]
  · have := hbalance info
    omega
  · unfold Run.operate
    rw [hops, replay, foldl_append]
    exact purged_apply_congr h.others op

theorem Balanced.operations (h : Balanced t keys r pending)
    (ops : List KeyOp) : Balanced t keys (ops.foldl .operate r) pending := by
  induction ops generalizing r with
  | nil => exact h
  | cons op rest ih => exact ih (h.operate op)

theorem Balanced.call (h : Balanced t keys r (info :: pending)) :
    Balanced t keys (r.call behaviour info) pending := by
  have hcalls : calls (r.events ++ [.call info]) = calls r.events ++ [info] := calls_append _ _
  have hops : ops (r.events ++ [.call info]) = ops r.events := by
    rw [ops_append]
    exact append_nil _
  have hbalance (other : CallInfo) :
      (calls (r.events ++ [.call info])).count other + pending.count other +
          (deleteList t r.keys).count other ≤
        (deleteList t keys ++ stored t keys (ops (r.events ++ [.call info]))).count other := by
    have hbefore := h.balance other
    rw [hcalls, hops]
    rw [count_cons] at hbefore
    rw [count_append, count_cons, count_nil]
    omega
  apply Balanced.operations
  refine ⟨?_, accounted_append h.accounted fun other => ?_, hbalance, ?_⟩
  · intro other hmem
    apply h.real other
    rwa [hcalls, append_assoc] at hmem
  · have := hbalance other
    omega
  · rw [hops]
    exact h.others

theorem Balanced.calls (h : Balanced t keys r pending) :
    Balanced t keys (pending.foldl (.call behaviour) r) [] := by
  induction pending generalizing r with
  | nil => exact h
  | cons info rest ih => exact ih h.call

theorem Balanced.round (h : Balanced t keys r []) : Balanced t keys (r.round behaviour t) [] := by
  apply Balanced.calls
  refine ⟨?_, h.accounted, fun info => ?_, (purged_collected t r.keys).trans h.others⟩
  · intro info hmem
    rcases mem_append.mp hmem with hcall | hcollected
    · exact h.real info (mem_append_left _ hcall)
    · exact real_of_mem_deleteList hcollected
  · -- the values move from the keys to the list
    have hbefore := h.balance info
    rw [count_nil] at hbefore
    rw [deleteList_collected, count_nil]
    omega

/-! ## The whole clean-up -/

theorem rounds_operations (ops : List KeyOp) (r : Run) :
    (ops.foldl operate r).rounds = r.rounds := by
  induction ops generalizing r with
  | nil => rfl
  | cons op rest ih => exact ih (r.operate op)

theorem rounds_calls (pending : List CallInfo) (r : Run) :
    (pending.foldl (call behaviour) r).rounds = r.rounds := by
  induction pending generalizing r with
  | nil => rfl
  | cons info rest ih =>
    rw [foldl_cons, ih]
    exact rounds_operations _ _

theorem rounds_destructLoop (n : ℕ) (r : Run) :
    (destructLoop behaviour t n r).rounds ≤ r.rounds + n := by
  induction n generalizing r with
  | zero => exact le_rfl
  | succ n ih =>
    unfold destructLoop
    split
    · exact le_add_right _ _
    · have hround : (r.round behaviour t).rounds = r.rounds + 1 := rounds_calls _ _
      have := ih (r.round behaviour t)
      omega

theorem exists_balanced (h : Balanced t keys r []) (n : ℕ) :
    ∃ r', Balanced t keys r' [] ∧ (destructLoop behaviour t n r).events = r'.events ∧
      purged t (destructLoop behaviour t n r).keys = purged t r'.keys := by
  induction n generalizing r with
  | zero => exact ⟨r, h, rfl, purged_purged t r.keys⟩
  | succ n ih =>
    unfold destructLoop
    split
    · exact ⟨r, h, rfl, rfl⟩
    · exact ih h.round

theorem clean_purged (t : ℤ) (keys : Keys) : Clean t (purged t keys) := by
  intro index v hv
  have hfilter := (mem_filter.mp hv).2
  rwa [decide_eq_true_eq] at hfilter

theorem clean_destructLoop (n : ℕ) (r : Run) :
    Clean t (destructLoop behaviour t n r).keys ↔ NeverLeft behaviour t n r := by
  induction n generalizing r with
  | zero => exact iff_of_true (clean_purged t r.keys) trivial
  | succ n ih =>
    unfold destructLoop NeverLeft
    by_cases hempty : deleteList t r.keys = []
    · rw [if_pos hempty]
      exact ⟨fun h => ⟨fun _ => h, fun hne => absurd hempty hne⟩, fun h => h.1 hempty⟩
    · rw [if_neg hempty, ih]
      exact ⟨fun h => ⟨fun hnil => absurd hnil hempty, fun _ => h⟩, fun h => h.2 hempty⟩

theorem balanced_start (t : ℤ) (keys : Keys) : Balanced t keys { keys } [] where
  real _ h := by cases h
  accounted events h info := by
    rw [prefix_nil.mp h]
    exact zero_le _
  balance info := by simp [PthreadKeys.calls, ops, stored]
  others := rfl

/-- **The clean-up of a thread**, for every behaviour of the destructors: it is complete if and
only if no round finds nothing to call and an entry of the thread. -/
theorem destruct_cleans_up_iff (behaviour : Behaviour) (t : ℤ) (keys : Keys) :
    CleansUp behaviour t keys ↔ NeverLeft behaviour t DESTRUCTOR_ITERATIONS { keys } := by
  constructor
  · intro h
    exact (clean_destructLoop _ _).mp h.clean
  · intro h
    obtain ⟨r', hbalanced, hevents, hkeys⟩ :=
      @exists_balanced t keys behaviour _ (balanced_start t keys) DESTRUCTOR_ITERATIONS
    refine ⟨?_, ?_, ?_, ?_, (clean_destructLoop _ _).mpr h⟩
    · exact rounds_destructLoop DESTRUCTOR_ITERATIONS { keys }
    · intro info hinfo
      apply hbalanced.real
      rw [List.append_nil, ← hevents]
      exact hinfo
    · intro events hprefix
      apply hbalanced.accounted
      rw [← hevents]
      exact hprefix
    · unfold destruct
      rw [hkeys, hevents]
      exact hbalanced.others

/-- A value under a key without destructor stays behind. -/
theorem destruct_leaves_value :
    ¬ CleansUp (fun _ => []) 1
      (Function.update (fun _ => {}) 0 { used := true, specific_values := [⟨1, 5⟩] }) := by
  intro h
  have hempty : deleteList 1
      (Function.update (fun _ => {}) 0 { used := true, specific_values := [⟨1, 5⟩] }) = [] := by
    unfold deleteList
    rw [List.flatMap_eq_nil_iff]
    intro index _
    by_cases hindex : index = 0
    · subst hindex
      rfl
    · rw [Function.update_of_ne hindex]
      rfl
  have hclean := ((clean_destructLoop _ _).mp h.clean).1 hempty
  exact hclean 0 ⟨1, 5⟩ (by simp) rfl

end MagnusPS5.Kernel.PthreadKeys
