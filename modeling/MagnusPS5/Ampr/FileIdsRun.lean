/-
File ids over whole runs: paths resolved one by one or in batches, in any order, while the
file system changes.

A path is answered by what the file system said of it at first (`firstInfo`). The table of
host paths is a log of writes, one for each path that was found, and an id denotes what
the last of them has written for it.
-/
import MagnusPS5.Ampr.FileIds
import MagnusPS5.Lib.Writes

namespace MagnusPS5.Ampr

open Lib ResolveError List Option ResolveCall Function AprShared

section Runs

variable {H : Type}

/-- The batches of a run, one after the other, and all indices that they have come to. -/
def AprShared.resolveAll : List (ResolveCall H) → AprShared H → List (Item H) × AprShared H
  | [], apr => ([], apr)
  | call :: calls, apr =>
    let resolved := resolvePathsCommon call apr
    let rest := AprShared.resolveAll calls resolved.2.2
    (resolved.2.1 ++ rest.1, rest.2)

variable (log : List (Item H))

/-- What the file system said of a path when it was resolved first. -/
def firstInfo (path : Path) : Option (ResolvedPathInfo H) :=
  (log.find? fun item => decide (item.path = some path)).map fun item => freshInfo item.fs path

/-- The outcome that is registered for an index: that of a path which was found. -/
def infoOf (item : Item H) : Option (ResolvedPathInfo H) :=
  item.path.bind fun path =>
    if path = [] then none
    else (firstInfo log path).filter fun info => decide (info.result = .ok ())

/-- The registrations of a log. -/
def registered : List (ResolvedPathInfo H) := log.filterMap (infoOf log)

/-- The entry of a table that a registration writes. -/
def covers (info : ResolvedPathInfo H) (id : UInt32) : Bool := info.file_id == id

/-- The size that is kept for a path that was found. -/
def ResolvedPathInfo.registeredSize (info : ResolvedPathInfo H) : ℕ :=
  if info.is_dir then 0 else info.file_size

/-- The tables are those of a log. -/
structure Follows (apr : AprShared H) (log : List (Item H)) : Prop where
  memo : ∀ path, path ≠ [] → apr.g_resolved_paths path = firstInfo log path
  files : ∀ id, apr.g_files id =
    lastWrite covers (fun info : ResolvedPathInfo H => info.host_path) (registered log) id
  sizes : ∀ id, apr.g_file_sizes id = lastWrite covers ResolvedPathInfo.registeredSize
    (registered log) id

/-! ## First outcomes -/

variable {log : List (Item H)} {path : Path} {info : ResolvedPathInfo H} {apr : AprShared H}

theorem firstInfo_append_of_some (h : firstInfo log path = some info) (more : List (Item H)) :
    firstInfo (log ++ more) path = some info := by
  unfold firstInfo at h ⊢
  obtain ⟨item, hitem, hinfo⟩ := map_eq_some_iff.mp h
  rw [find?_append, hitem]
  exact congrArg some hinfo

theorem firstInfo_append_of_none (h : firstInfo log path = none) (more : List (Item H)) :
    firstInfo (log ++ more) path = firstInfo more path := by
  unfold firstInfo at h ⊢
  rw [find?_append, map_eq_none_iff.mp h]
  rfl

theorem firstInfo_isSome {item : Item H} (hitem : item ∈ log)
    (hpath : item.path = some path) : ∃ info, firstInfo log path = some info := by
  have hfound : (log.find? fun item => decide (item.path = some path)).isSome :=
    find?_isSome.mpr ⟨item, hitem, decide_eq_true hpath⟩
  obtain ⟨first, hfirst⟩ := isSome_iff_exists.mp hfound
  exact ⟨_, by unfold firstInfo; rw [hfirst]; rfl⟩

theorem firstInfo_file_id
    (h : firstInfo log path = some info) : info.file_id = computeFileId path := by
  obtain ⟨item, -, rfl⟩ := map_eq_some_iff.mp h
  unfold freshInfo
  dsimp only
  split
  · rfl
  · split <;> rfl

theorem infoOf_append {item : Item H} (hitem : item ∈ log)
    (more : List (Item H)) : infoOf (log ++ more) item = infoOf log item := by
  unfold infoOf
  cases hpath : item.path with
  | none => rfl
  | some path =>
    obtain ⟨info, hinfo⟩ := firstInfo_isSome hitem hpath
    show (if _ then _ else _) = (if _ then _ else _)
    rw [hinfo, firstInfo_append_of_some hinfo]

theorem registered_append (log more : List (Item H)) :
    registered (log ++ more) = registered log ++ more.filterMap (infoOf (log ++ more)) := by
  unfold registered
  rw [filterMap_append]
  congr 1
  exact filterMap_congr fun item hitem => infoOf_append hitem more

/-! ## One index -/

theorem firstInfo_singleton_of_ne {item : Item H} (h : item.path ≠ some path) :
    firstInfo [item] path = none := by
  unfold firstInfo
  rw [find?_singleton, if_neg (by simpa using h)]
  rfl

theorem Follows.skip (h : Follows apr log)
    {item : Item H} (hpath : ∀ path, item.path = some path → path = []) :
    Follows apr (log ++ [item]) := by
  have hnothing : registered (log ++ [item]) = registered log := by
    rw [registered_append]
    have hnone : infoOf (log ++ [item]) item = none := by
      unfold infoOf
      cases hitem : item.path with
      | none => rfl
      | some path => exact if_pos (hpath path hitem)
    rw [filterMap_cons_none hnone]
    exact append_nil _
  refine ⟨fun path hne => ?_, ?_, ?_⟩
  · rw [h.memo path hne]
    cases hfirst : firstInfo log path with
    | some info => exact (firstInfo_append_of_some hfirst _).symm
    | none =>
      rw [firstInfo_append_of_none hfirst]
      exact (firstInfo_singleton_of_ne fun hitem => hne (hpath path hitem)).symm
  · rw [hnothing]
    exact h.files
  · rw [hnothing]
    exact h.sizes

theorem Follows.register {item : Item H} (hpath : item.path = some path) (hne : path ≠ [])
    (hinfo : firstInfo (log ++ [item]) path = some info)
    (hmemo : ∀ path, path ≠ [] → apr.g_resolved_paths path = firstInfo (log ++ [item]) path)
    (hfiles : ∀ id, apr.g_files id =
      lastWrite covers (fun info : ResolvedPathInfo H => info.host_path) (registered log) id)
    (hsizes : ∀ id, apr.g_file_sizes id =
      lastWrite covers ResolvedPathInfo.registeredSize (registered log) id) :
    Follows (if info.result = .ok () then registerHostPath info apr else apr) (log ++ [item]) := by
  have hitem : infoOf (log ++ [item]) item = if info.result = .ok () then some info else none := by
    unfold infoOf
    rw [hpath]
    show (if path = [] then none else _) = _
    rw [if_neg hne, hinfo]
    by_cases hok : info.result = .ok ()
    · rw [if_pos hok]
      exact filter_some_pos (decide_eq_true hok)
    · rw [if_neg hok]
      exact filter_some_neg (by simpa using hok)
  have hregistered : registered (log ++ [item]) =
      registered log ++ (if info.result = .ok () then [info] else []) := by
    rw [registered_append]
    congr 1
    by_cases hok : info.result = .ok ()
    · rw [if_pos hok] at hitem ⊢
      rw [filterMap_cons_some hitem]
      rfl
    · rw [if_neg hok] at hitem ⊢
      rw [filterMap_cons_none hitem]
      rfl
  by_cases hok : info.result = .ok ()
  · rw [if_pos hok] at hregistered ⊢
    refine ⟨hmemo, fun id => ?_, fun id => ?_⟩
    · rw [hregistered, lastWrite_concat, ← hfiles]
      show update apr.g_files info.file_id _ id = _
      unfold covers
      by_cases hid : info.file_id = id
      · rw [hid, update_self, if_pos (beq_self_eq_true id)]
      · rw [update_of_ne (Ne.symm hid), if_neg (by simpa using hid)]
    · rw [hregistered, lastWrite_concat, ← hsizes]
      show update apr.g_file_sizes info.file_id _ id = _
      unfold covers
      by_cases hid : info.file_id = id
      · rw [hid, update_self, if_pos (beq_self_eq_true id)]
        rfl
      · rw [update_of_ne (Ne.symm hid), if_neg (by simpa using hid)]
  · rw [if_neg hok, append_nil] at hregistered
    rw [if_neg hok]
    rw [← hregistered] at hfiles hsizes
    exact ⟨hmemo, hfiles, hsizes⟩

/-- **One path.** What is answered is what the file system said of it first. -/
theorem Follows.resolve (h : Follows apr log)
    {item : Item H} (hpath : item.path = some path) (hne : path ≠ []) :
    firstInfo (log ++ [item]) path = some (resolveInfo item.fs path apr).1 ∧
      Follows (resolveInfo item.fs path apr).2 (log ++ [item]) := by
  have hother : ∀ path', path' ≠ path → path' ≠ [] →
      firstInfo (log ++ [item]) path' = apr.g_resolved_paths path' := by
    intro path' hne' hnil
    rw [h.memo path' hnil]
    cases hfirst : firstInfo log path' with
    | some info => exact firstInfo_append_of_some hfirst _
    | none =>
      rw [firstInfo_append_of_none hfirst]
      apply firstInfo_singleton_of_ne
      rw [hpath]
      exact fun heq => hne' (some.inj heq).symm
  have hmemo := h.memo path hne
  unfold resolveInfo
  cases hfound : apr.g_resolved_paths path with
  | some info =>
    have hinfo : firstInfo (log ++ [item]) path = some info :=
      firstInfo_append_of_some (hmemo.symm.trans hfound) _
    refine ⟨hinfo, .register hpath hne hinfo (fun path' hnil => ?_) h.files h.sizes⟩
    by_cases heq : path' = path
    · rw [heq, hfound, hinfo]
    · exact (hother path' heq hnil).symm
  | none =>
    have hinfo : firstInfo (log ++ [item]) path = some (freshInfo item.fs path) := by
      rw [firstInfo_append_of_none (hmemo.symm.trans hfound)]
      unfold firstInfo
      rw [find?_singleton, if_pos (decide_eq_true hpath)]
      rfl
    refine ⟨hinfo, .register hpath hne hinfo (fun path' hnil => ?_) h.files h.sizes⟩
    show update apr.g_resolved_paths path _ path' = _
    by_cases heq : path' = path
    · rw [heq, update_self, hinfo]
    · rw [update_of_ne heq]
      exact (hother path' heq hnil).symm

/-! ## One batch -/

/-- What a batch answers to a path with this first outcome. -/
def ResolveCall.answer (call : ResolveCall H) (info : ResolvedPathInfo H) : Answer :=
  if info.result = .ok () then
    { result := .ok ()
      id := if call.ids ≠ 0 then some info.file_id else none
      size := if call.sizes ≠ 0 then some info.file_size else none }
  else { result := info.result }

theorem isValidGuestRange_element {addr count size i : ℕ} (hi : i < count)
    (h : isValidGuestRange addr (count * size) = true) :
    isValidGuestRange (addr + size * i) size = true := by
  unfold isValidGuestRange at h ⊢
  rcases Nat.eq_zero_or_pos size with rfl | hsize
  · rfl
  · have hroom : size * i + size ≤ count * size := by
      rw [← Nat.mul_succ, Nat.mul_comm]
      exact Nat.mul_le_mul_right size hi
    simp only [Bool.or_eq_true, beq_iff_eq, Bool.and_eq_true, bne_iff_ne, ne_eq,
      decide_eq_true_eq] at h ⊢
    omega

variable {call : ResolveCall H}

theorem ResolveCall.answerOf_eq (hcheck : call.check = .ok ()) {i : ℕ}
    (hi : i < call.count) (info : ResolvedPathInfo H) :
    answerOf info (if call.ids ≠ 0 then call.ids + 4 * i else 0)
      (if call.sizes ≠ 0 then call.sizes + 8 * i else 0) = call.answer info := by
  unfold check at hcheck
  split at hcheck
  · exact absurd hcheck nofun
  · split at hcheck
    · exact absurd hcheck nofun
    next hranges =>
      simp only [not_or, not_and, Bool.not_eq_false] at hranges
      obtain ⟨-, hids, hsizes, -⟩ := hranges
      unfold answerOf answer
      by_cases hok : info.result = .ok ()
      · rw [if_neg (not_not.mpr hok), if_pos hok]
        by_cases hid : call.ids = 0
        · by_cases hsize : call.sizes = 0
          · simp [hid, hsize]
          · have hvalid := isValidGuestRange_element hi (hsizes hsize)
            simp [hid, hsize, hvalid]
        · have hvalid := isValidGuestRange_element hi (hids hid)
          by_cases hsize : call.sizes = 0
          · simp [hid, hsize, hvalid]
          · have hvalid' := isValidGuestRange_element hi (hsizes hsize)
            simp [hid, hsize, hvalid, hvalid']
      · rw [if_pos hok, if_neg hok]

/-- The answer of an index, in a log that contains it. -/
def ResolveCall.Agrees (call : ResolveCall H) (log : List (Item H)) (i : ℕ) (item : Item H) :
    Prop :=
  item.path = call.path i ∧ ∀ path, item.path = some path → path ≠ [] →
    ∃ info, firstInfo log path = some info ∧ item.answer = call.answer info

theorem ResolveCall.Agrees.append {i : ℕ}
    {item : Item H} (h : call.Agrees log i item) (more : List (Item H)) :
    call.Agrees (log ++ more) i item := by
  refine ⟨h.1, fun path hpath hne => ?_⟩
  obtain ⟨info, hinfo, hanswer⟩ := h.2 path hpath hne
  exact ⟨info, firstInfo_append_of_some hinfo more, hanswer⟩

theorem Follows.item (h : Follows apr log)
    (hcheck : call.check = .ok ()) {i : ℕ} (hi : i < call.count) :
    Follows (call.item i apr).2 (log ++ [(call.item i apr).1]) ∧
      call.Agrees (log ++ [(call.item i apr).1]) i (call.item i apr).1 := by
  unfold ResolveCall.item ResolveCall.Agrees
  cases hpath : call.path i with
  | none => exact ⟨h.skip nofun, rfl, nofun⟩
  | some path =>
    dsimp only
    unfold resolveOnePath
    by_cases hne : path = []
    · rw [if_pos hne]
      refine ⟨h.skip ?_, rfl, ?_⟩
      · intro path' hpath'
        rw [← some.inj hpath', hne]
      · intro path' hpath' hne'
        exact absurd ((some.inj hpath').symm.trans hne) hne'
    · rw [if_neg hne]
      dsimp only
      rw [call.answerOf_eq hcheck hi]
      let item : Item H := { path := some path, fs := call.fs i, answer := (call.answer
        (resolveInfo (call.fs i) path apr).1) }
      have hitem : item.path = some path := rfl
      have hresolve := h.resolve hitem hne
      refine ⟨hresolve.2, rfl, fun path' hpath' _ => ?_⟩
      cases hpath'
      exact ⟨_, hresolve.1, rfl⟩

/-- **One batch**, from the index `i` on. -/
theorem Follows.items (hcheck : call.check = .ok ()) {n i : ℕ}
    (h : Follows apr log) (hn : i + n ≤ call.count) :
    Follows (call.items n i apr).2 (log ++ (call.items n i apr).1) ∧
      (∀ k item, (call.items n i apr).1[k]? = some item →
        call.Agrees (log ++ (call.items n i apr).1) (i + k) item) ∧
      (call.results ≠ 0 → (call.items n i apr).1.length = n) := by
  induction n generalizing i apr log with
  | zero =>
    refine ⟨?_, fun k item hk => absurd hk nofun, fun _ => rfl⟩
    rw [items, append_nil]
    exact h
  | succ n ih =>
    obtain ⟨hfollows, hagrees⟩ := h.item hcheck (by omega : i < call.count)
    unfold items
    by_cases hstop : (call.item i apr).1.answer.result ≠ .ok () ∧ call.results = 0
    · rw [if_pos hstop]
      refine ⟨hfollows, fun k item hk => ?_, fun hresults => absurd hstop.2 hresults⟩
      cases k with
      | zero =>
        cases hk
        exact hagrees
      | succ k => exact absurd hk nofun
    · rw [if_neg hstop]
      obtain ⟨hrest, hagrees', hlength⟩ := ih (i := i + 1) hfollows (by omega)
      rw [append_assoc, singleton_append] at hrest
      refine ⟨hrest, fun k item hk => ?_, fun hresults => congrArg (· + 1) (hlength hresults)⟩
      cases k with
      | zero =>
        cases hk
        have hmore := hagrees.append (call.items n (i + 1) (call.item i apr).2).1
        rw [append_assoc, singleton_append] at hmore
        exact hmore
      | succ k =>
        have hlater := hagrees' k item hk
        rw [append_assoc, singleton_append] at hlater
        rw [show i + (k + 1) = i + 1 + k by omega]
        exact hlater

theorem Follows.common (h : Follows apr log) (call : ResolveCall H) :
    Follows (resolvePathsCommon call apr).2.2 (log ++ (resolvePathsCommon call apr).2.1) := by
  unfold resolvePathsCommon
  cases hcheck : call.check with
  | error error =>
    rw [append_nil]
    exact h
  | ok _ => exact (h.items hcheck (by omega)).1

/-- **Every run** of batches keeps the tables to the log. -/
theorem Follows.resolveAll (h : Follows apr log) (calls : List (ResolveCall H)) :
    Follows (resolveAll calls apr).2 (log ++ (resolveAll calls apr).1) := by
  induction calls generalizing apr log with
  | nil =>
    rw [resolveAll, append_nil]
    exact h
  | cons call calls ih =>
    have hrest := ih (h.common call)
    rw [append_assoc] at hrest
    exact hrest

theorem follows_start : Follows (.start : AprShared H) [] :=
  ⟨fun _ _ => rfl, fun _ => rfl, fun _ => rfl⟩

/-! ## The run -/

/-- The paths that are found from some index on and take the id of `info` all have `info`'s
value. -/
def Undisturbed {β : Type} (log after : List (Item H)) (info : ResolvedPathInfo H)
    (value : ResolvedPathInfo H → β) : Prop :=
  ∀ item ∈ after, ∀ other, infoOf log item = some other → other.file_id = info.file_id →
    value other = value info

theorem lastWrite_registered {β : Type} {before after : List (Item H)} {item : Item H}
    {value : ResolvedPathInfo H → β}
    (hlog : log = before ++ item :: after) (hitem : infoOf log item = some info)
    (hafter : Undisturbed log after info value) :
    lastWrite covers value (registered log) info.file_id = some (value info) := by
  have hregistered : registered log =
      before.filterMap (infoOf log) ++ info :: after.filterMap (infoOf log) := by
    show log.filterMap (infoOf log) = _
    conv_lhs => rw [hlog]
    rw [filterMap_append, ← hlog, filterMap_cons_some hitem]
  rw [hregistered]
  apply lastWrite_of_exact covers value (beq_self_eq_true info.file_id)
  intro other hother hcovers
  obtain ⟨later, hlater, hinfo⟩ := mem_filterMap.mp hother
  exact hafter later hlater other hinfo (beq_iff_eq.mp hcovers)

/-- **Ids of files.** After any batches, every index of the next one is answered with what the
file system said of its path when the path was first resolved. The id of a path is its
hash. It denotes the host file of the path, in the file system as it is by then, until a path
with the same hash and another host file is found; and `GetFileSize` reports the size that
the file had at first, until another path with the same hash is found. -/
theorem ids_of_files (calls : List (ResolveCall H)) :
    let log := (AprShared.resolveAll calls .start).1
    let apr := (AprShared.resolveAll calls .start).2
    (∀ call : ResolveCall H, call.check = .ok () →
      let items := (resolvePathsCommon call apr).2.1
      (resolvePathsCommon call apr).1 = call.outputs items ∧
      (call.results ≠ 0 → items.length = call.count) ∧
      ∀ i item, items[i]? = some item → call.Agrees (log ++ items) i item) ∧
    (∀ path info, firstInfo log path = some info → info.file_id = computeFileId path) ∧
    (∀ before item after info, log = before ++ item :: after → infoOf log item = some info →
      (Undisturbed log after info (·.host_path) → ∀ fs file_offset size,
        getFileStat fs apr info.file_id = getHostPathStat fs info.host_path ∧
        readFile fs apr info.file_id file_offset size =
          readHostFile fs info.host_path file_offset size) ∧
      (Undisturbed log after info (·.host_path) →
        Undisturbed log after info ResolvedPathInfo.registeredSize → ∀ fs,
        getFileSize fs apr info.file_id = .ok info.registeredSize)) := by
  intro log apr
  have hfollows : Follows apr log := follows_start.resolveAll calls
  have hhost : ∀ before item after info, log = before ++ item :: after →
      infoOf log item = some info → Undisturbed log after info (·.host_path) →
      tryGetHostPath apr info.file_id = some info.host_path := by
    intro before item after info hlog hitem hafter
    exact (hfollows.files _).trans (lastWrite_registered hlog hitem hafter)
  refine ⟨fun call hcheck => ?_, fun path info hinfo => firstInfo_file_id hinfo, ?_⟩
  · intro items
    obtain ⟨-, hagrees, hlength⟩ := hfollows.items hcheck (by omega : 0 + call.count ≤ call.count)
    have hcommon : resolvePathsCommon call apr =
        (call.outputs (call.items call.count 0 apr).1, call.items call.count 0 apr) := by
      unfold resolvePathsCommon
      rw [hcheck]
    have hitems : items = (call.items call.count 0 apr).1 := by
      show (resolvePathsCommon call apr).2.1 = _
      rw [hcommon]
    rw [hitems, hcommon]
    refine ⟨rfl, hlength, fun i item hi => ?_⟩
    have hagree := hagrees i item hi
    rw [Nat.zero_add] at hagree
    exact hagree
  · intro before item after info hlog hitem
    refine ⟨fun hafter fs file_offset size => ?_, fun hafter hsizes fs => ?_⟩
    · have hfound := hhost before item after info hlog hitem hafter
      unfold getFileStat readFile
      rw [hfound]
      exact ⟨rfl, rfl⟩
    · have hfound := hhost before item after info hlog hitem hafter
      have hsize : apr.g_file_sizes info.file_id = some info.registeredSize :=
        (hfollows.sizes _).trans (lastWrite_registered hlog hitem hsizes)
      unfold getFileSize
      rw [hfound]
      rw [hsize]

end Runs

/-! ## Runs on fixed inputs -/

/-- A host with these files, each under its guest path, of the given size. -/
def hostWith (files : List Path) (size : ℕ) : FileSystem Path :=
  { getRealFilename := id
    isDirectoryExisting := fun _ => false
    isFileExisting := fun path => files.contains path
    size := fun _ => size
    contents := fun path => if files.contains path then some (List.replicate size 0) else none }

/-- One path, resolved to an id and a size at addresses `0x1000` and `0x2000`. -/
def resolveOne (fs : FileSystem Path) (path : Path) : ResolveCall Path :=
  { path_list := 0x100, count := 1, ids := 0x1000, sizes := 0x2000, error_index := 0, base := []
    results := 0, text := fun _ => some path, fs := fun _ => fs }

/-- After a second path with another id was found, the first id denotes its file, as it is by
then. -/
theorem ids_of_files_two :
    getFileStat (hostWith [[0x61], [0x62]] 5)
        (AprShared.resolveAll [resolveOne (hostWith [[0x61], [0x62]] 3) [0x61],
          resolveOne (hostWith [[0x61], [0x62]] 3) [0x62]] .start).2 (computeFileId [0x61]) =
      .ok { st_mode := 0o100777, st_size := 5, st_blksize := 512, st_blocks := 1 } := by
  have hlater : computeFileId [0x62] ≠ computeFileId [0x61] := by decide
  have hrun := (ids_of_files [resolveOne (hostWith [[0x61], [0x62]] 3) [0x61],
    resolveOne (hostWith [[0x61], [0x62]] 3) [0x62]]).2.2 [] _ [_]
    (freshInfo (hostWith [[0x61], [0x62]] 3) [0x61]) rfl rfl
  refine (hrun.1 ?_ (hostWith [[0x61], [0x62]] 5) 0 0).1
  intro item hitem other hother hid
  rw [List.mem_singleton.mp hitem] at hother
  obtain rfl : freshInfo (hostWith [[0x61], [0x62]] 3) [0x62] = other := Option.some.inj hother
  exact absurd hid hlater

/-- Two paths with one hash, on different files: the id of the first denotes the second. A path
that was not found is not found after its file was made, and a file that grows keeps its size. -/
theorem ids_collide_and_outcomes_stay :
    (let first : Path := [0x2f, 0x61, 0x70, 0x70, 0x30, 0x2f, 0x78, 0x74, 0x66, 0x73]
    let second : Path := [0x2f, 0x61, 0x70, 0x70, 0x30, 0x2f, 0x30, 0x72, 0x6a, 0x61]
    let resolved := AprShared.resolveAll [resolveOne (hostWith [first, second] 3) first,
      resolveOne (hostWith [first, second] 3) second] .start
    resolved.1.map (·.answer.id) = [some 0x1e7ccd4f, some 0x1e7ccd4f] ∧
      tryGetHostPath resolved.2 0x1e7ccd4f = some second ∧ first ≠ second) ∧
    ((AprShared.resolveAll [resolveOne (hostWith [] 0) [0x61], resolveOne (hostWith [[0x61]] 3)
        [0x61]] .start).1.map (·.answer.result) =
      [.error KERNEL_ERROR_ENOENT, .error KERNEL_ERROR_ENOENT]) ∧
    ((AprShared.resolveAll [resolveOne (hostWith [[0x61]] 3) [0x61],
        resolveOne (hostWith [[0x61]] 5) [0x61]] .start).1.map (·.answer.size) =
      [some 3, some 3]) := by
  decide

end MagnusPS5.Ampr
