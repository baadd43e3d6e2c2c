/-
The mount table, `MountPoints`, and `KernelRename` of `fileSystem.cpp`.

A path of the host is looked up without regard to case; what that makes of it is an argument,
`resolve`. Of the files of the host the model has the contents: making directories changes none,
and a move that a directory is in the way of is one that fails.
-/
import MagnusPS5.Kernel.FileDescriptors
import Mathlib.Data.List.DropRight
import Mathlib.Data.List.Infix

namespace MagnusPS5.Kernel.MountPoints

open List

abbrev Path := List Char

def FixFilenameSlash (text : Path) : Path := text.map fun c => if c = '\\' then '/' else c

def FixDirectorySlash (text : Path) : Path :=
  let ret := FixFilenameSlash text
  if ret.getLast? = some '/' then ret else ret ++ ['/']

def DirectoryWithoutFilename (text : Path) : Path := text.rdropWhile (· ≠ '/')

structure MountPair where
  dir : Path
  point : Path
  deriving DecidableEq

/-- The pair is the one of a directory or of a point. -/
def MountPair.Of (folder_or_point : Path) (p : MountPair) : Bool :=
  p.dir = folder_or_point ∨ p.point = folder_or_point

variable (m_mount_pairs : List MountPair)

def Umount (folder_or_point : Path) : List MountPair :=
  m_mount_pairs.eraseP (MountPair.Of (FixDirectorySlash folder_or_point))

def Mount (folder point : Path) : List MountPair :=
  let folder := FixDirectorySlash folder
  let point := FixDirectorySlash point
  Umount m_mount_pairs point ++ [⟨folder, point⟩]

section Resolution

variable (resolve : Path → Path) (m_mount_pairs : List MountPair)

/-- The path of the host below the directory of a pair. -/
def MountPair.below (p : MountPair) (fixed : Path) : Path :=
  p.dir ++ (fixed.drop p.point.length).dropWhile (· = '/')

/-- The first pair whose point the path starts with. -/
def find (mounted_path : Path) : Option MountPair :=
  m_mount_pairs.find? fun p => p.point.isPrefixOf mounted_path

def GetRealFilename (mounted_file_name : Path) : Path :=
  let fixed := FixFilenameSlash mounted_file_name
  match find m_mount_pairs (DirectoryWithoutFilename fixed) with
  | some p => resolve (p.below fixed)
  | none => mounted_file_name

def GetRealDirectory (mounted_directory : Path) : Path :=
  let fixed := FixDirectorySlash mounted_directory
  match find m_mount_pairs fixed with
  | some p => resolve (p.below fixed)
  | none => mounted_directory

end Resolution

/-! ## Histories -/

inductive Op
  | Mount (folder point : Path)
  | Umount (folder_or_point : Path)

def Op.apply : Op → List MountPair
  | Mount folder point => MountPoints.Mount m_mount_pairs folder point
  | Umount folder_or_point => MountPoints.Umount m_mount_pairs folder_or_point

/-- What the mount of a point takes out of the table is a pair of that point, and the point is
below none that is mounted. What `Umount` takes out is the pair of the point, if it is mounted. -/
def Op.Fits : Op → Prop
  | Mount _ point =>
      (∀ p ∈ m_mount_pairs.find? (MountPair.Of (FixDirectorySlash point)),
        p.point = FixDirectorySlash point) ∧
      ∀ p ∈ m_mount_pairs, p.point <+: FixDirectorySlash point → p.point = FixDirectorySlash point
  | Umount folder_or_point =>
      (∃ p ∈ m_mount_pairs, p.point = FixDirectorySlash folder_or_point) →
        ∀ p ∈ m_mount_pairs.find? (MountPair.Of (FixDirectorySlash folder_or_point)),
          p.point = FixDirectorySlash folder_or_point

/-- The tables that histories of fitting operations lead to. -/
inductive Reached : List MountPair → Prop
  | empty : Reached []
  | step {m_mount_pairs : List MountPair} (h : Reached m_mount_pairs) (op : Op)
      (hfits : op.Fits m_mount_pairs) : Reached (op.apply m_mount_pairs)

/-- The pair has the longest of the points that the path starts with. -/
def Longest (path : Path) (p : MountPair) : Prop :=
  p ∈ m_mount_pairs ∧ p.point <+: path ∧
    ∀ q ∈ m_mount_pairs, q.point <+: path → q.point.length ≤ p.point.length

/-- No point is below one that was mounted before it. -/
def Ordered : Prop :=
  m_mount_pairs.Pairwise fun p q => ¬ p.point <+: q.point

variable {m_mount_pairs : List MountPair} {path folder point : Path} {p : MountPair}

/-- `Mount` fixes the slashes of a point once more when it calls `Umount`. -/
theorem fixDirectorySlash_idem (text : Path) :
    FixDirectorySlash (FixDirectorySlash text) = FixDirectorySlash text := by
  have hfix : FixFilenameSlash (FixDirectorySlash text) = FixDirectorySlash text := by
    have hchars : FixFilenameSlash (FixFilenameSlash text) = FixFilenameSlash text := by
      unfold FixFilenameSlash
      rw [map_map]
      apply map_congr_left
      intro c _
      by_cases hc : c = '\\' <;> simp [hc]
    unfold FixDirectorySlash
    dsimp only
    split
    · exact hchars
    · rw [FixFilenameSlash, map_append, ← FixFilenameSlash, hchars]
      rfl
  have hlast : (FixDirectorySlash text).getLast? = some '/' := by
    unfold FixDirectorySlash
    dsimp only
    split
    · assumption
    · simp
  rw [FixDirectorySlash, hfix, if_pos hlast]

section

variable (h : Ordered m_mount_pairs)

include h

/-- The first pair that a path starts with is the one of the longest point. -/
theorem find_of_longest (hp : Longest m_mount_pairs path p) : find m_mount_pairs path = some p := by
  obtain ⟨hmem, hprefix, hlongest⟩ := hp
  unfold find
  induction m_mount_pairs with
  | nil => exact nomatch hmem
  | cons q rest ih =>
    obtain ⟨hq, hrest⟩ := pairwise_cons.mp h
    rcases mem_cons.mp hmem with rfl | hmem
    · simp [ hprefix]
    · have hno : ¬ q.point <+: path := fun hqpath =>
        hq p hmem (prefix_of_prefix_length_le hqpath hprefix (hlongest q mem_cons_self hqpath))
      rw [find?_cons_of_neg (by simpa using hno)]
      exact ih hrest hmem fun q hq => hlongest q (.tail _ hq)

/-- What a fitting `Mount` takes out of the table is the pair with the same point. -/
theorem mem_umount (hfits : ∀ q ∈ m_mount_pairs.find? (MountPair.Of point), q.point = point) :
    p ∈ m_mount_pairs.eraseP (MountPair.Of point) ↔ p ∈ m_mount_pairs ∧ p.point ≠ point := by
  induction m_mount_pairs with
  | nil => simp
  | cons q rest ih =>
    obtain ⟨hq, hrest⟩ := pairwise_cons.mp h
    by_cases hof : MountPair.Of point q
    · have hpoint : q.point = point := hfits q (find?_cons_of_pos hof)
      rw [eraseP_cons_of_pos hof]
      refine ⟨fun hp => ⟨.tail _ hp, fun hsame => ?_⟩, fun ⟨hp, hne⟩ => ?_⟩
      · apply hq p hp
        rw [hpoint, hsame]
      · exact (mem_cons.mp hp).resolve_left fun heq => hne (heq ▸ hpoint)
    · rw [find?_cons_of_neg hof] at hfits
      rw [eraseP_cons_of_neg hof, mem_cons, mem_cons, ih hrest hfits]
      constructor
      · rintro (rfl | ⟨hp, hne⟩)
        · refine ⟨Or.inl rfl, fun hpoint => hof ?_⟩
          simp [MountPair.Of, hpoint]
        · exact ⟨Or.inr hp, hne⟩
      · rintro ⟨rfl | hp, hne⟩
        · exact .inl rfl
        · exact .inr ⟨hp, hne⟩

/-- A fitting `Mount` adds its pair and keeps the pairs of the other points. -/
theorem mem_mount (hfits : (Op.Mount folder point).Fits m_mount_pairs) :
    p ∈ Mount m_mount_pairs folder point ↔
      p = ⟨FixDirectorySlash folder, FixDirectorySlash point⟩ ∨
        p ∈ m_mount_pairs ∧ p.point ≠ FixDirectorySlash point := by
  rw [Mount, mem_append, Umount, fixDirectorySlash_idem, mem_umount h hfits.1,
    mem_singleton, or_comm]

/-- Fitting operations never put a point behind one that it is below. -/
theorem Ordered.apply {op : Op} (hfits : op.Fits m_mount_pairs) :
    Ordered (op.apply m_mount_pairs) := by
  cases op with
  | Umount folder_or_point => exact h.sublist eraseP_sublist
  | Mount folder point =>
    refine pairwise_append.mpr
      ⟨h.sublist eraseP_sublist, pairwise_singleton _ _, fun q hq r hr hprefix => ?_⟩
    rw [Umount, fixDirectorySlash_idem] at hq
    obtain ⟨hmem, hne⟩ := (mem_umount h hfits.1).mp hq
    rw [mem_singleton.mp hr] at hprefix
    exact hne (hfits.2 q hmem hprefix)

end

/-- Every table that fitting operations lead to is ordered. -/
theorem Reached.ordered (h : Reached m_mount_pairs) : Ordered m_mount_pairs := by
  induction h with
  | empty => exact .nil
  | step _ op hfits ih => exact ih.apply hfits

/-- The longest point of a path stays the longest one when another is mounted. -/
theorem longest_mount (h : Ordered m_mount_pairs)
    (hfits : (Op.Mount folder point).Fits m_mount_pairs) (hne : p.point ≠ FixDirectorySlash point)
    (hp : Longest m_mount_pairs path p) : Longest (Mount m_mount_pairs folder point) path p := by
  obtain ⟨hmem, hprefix, hlongest⟩ := hp
  refine ⟨(mem_mount h hfits).mpr (.inr ⟨hmem, hne⟩), hprefix, fun q hq hqpath => ?_⟩
  rcases (mem_mount h hfits).mp hq with rfl | hold
  · -- a longer new point would be below the one of the pair
    by_contra hlonger
    have hbelow := prefix_of_prefix_length_le hprefix hqpath (le_of_not_ge hlonger)
    exact hne (hfits.2 p hmem hbelow)
  · exact hlongest q hold.1 hqpath

/-- A resolution function that looks for the key of a path in the table, as a map from points to
directories: the longest point that the key starts with gives the directory, a path below no point
is not resolved, what is mounted at a point is what paths below it are resolved with, and the
paths that another point resolved are resolved as before. -/
structure ResolvesAsMap (resolve : Path → Path) (get : List MountPair → Path → Path)
    (key fixed : Path → Path) (m_mount_pairs : List MountPair) : Prop where
  longest : ∀ name p, Longest m_mount_pairs (key name) p →
    get m_mount_pairs name = resolve (p.below (fixed name))
  outside : ∀ name, (∀ p ∈ m_mount_pairs, ¬ p.point <+: key name) → get m_mount_pairs name = name
  mounted : ∀ folder point, (Op.Mount folder point).Fits m_mount_pairs →
    ∀ name, FixDirectorySlash point <+: key name →
      (∀ q ∈ m_mount_pairs, q.point <+: key name →
        q.point.length ≤ (FixDirectorySlash point).length) →
      get (Mount m_mount_pairs folder point) name =
        resolve (MountPair.below ⟨FixDirectorySlash folder, FixDirectorySlash point⟩ (fixed name))
  others : ∀ folder point, (Op.Mount folder point).Fits m_mount_pairs →
    ∀ name p, p.point ≠ FixDirectorySlash point → Longest m_mount_pairs (key name) p →
      get (Mount m_mount_pairs folder point) name = get m_mount_pairs name

/-- A function that resolves with the first pair that the key starts with resolves as the map. -/
theorem resolvesAsMap {resolve : Path → Path} {get : List MountPair → Path → Path}
    {key fixed : Path → Path} (h : Ordered m_mount_pairs) (hget : ∀ pairs name, get pairs name =
      (find pairs (key name)).elim name fun p => resolve (p.below (fixed name))) :
    ResolvesAsMap resolve get key fixed m_mount_pairs where
  longest name p hp := by
    rw [hget, find_of_longest h hp]
    rfl
  outside name hno := by
    have hnone : find m_mount_pairs (key name) = none :=
      find?_eq_none.mpr fun p hp hprefix => hno p hp ( isPrefixOf_iff_prefix.mp hprefix)
    rw [hget, hnone]
    rfl
  mounted folder point hfits name hprefix hlongest := by
    have hfound : find (Mount m_mount_pairs folder point) (key name) =
        some ⟨FixDirectorySlash folder, FixDirectorySlash point⟩ := by
      refine find_of_longest (h.apply hfits)
        ⟨(mem_mount h hfits).mpr (.inl rfl), hprefix, fun q hq hqpath => ?_⟩
      rcases (mem_mount h hfits).mp hq with rfl | hold
      · exact le_rfl
      · exact hlongest q hold.1 hqpath
    rw [hget, hfound]
    rfl
  others folder point hfits name p hne hp := by
    have hafter : find (Mount m_mount_pairs folder point) (key name) = some p :=
      find_of_longest (h.apply hfits) (longest_mount h hfits hne hp)
    rw [hget, hget, find_of_longest h hp, hafter]

/-- **The mount table is a map.** In every table that fitting operations lead to, a point occurs
once, a mount and an unmount of a point change the pair of this point only, and both functions
resolve as the map does. -/
theorem mount_table_resolves (resolve : Path → Path) (h : Reached m_mount_pairs) :
    (m_mount_pairs.map MountPair.point).Nodup ∧
    (∀ folder point, (Op.Mount folder point).Fits m_mount_pairs →
      ∀ p, p ∈ Mount m_mount_pairs folder point ↔
        p = ⟨FixDirectorySlash folder, FixDirectorySlash point⟩ ∨
          p ∈ m_mount_pairs ∧ p.point ≠ FixDirectorySlash point) ∧
    (∀ point, (Op.Umount point).Fits m_mount_pairs →
      (∃ q ∈ m_mount_pairs, q.point = FixDirectorySlash point) →
      ∀ p, p ∈ Umount m_mount_pairs point ↔
        p ∈ m_mount_pairs ∧ p.point ≠ FixDirectorySlash point) ∧
    ResolvesAsMap resolve (GetRealFilename resolve)
      (fun name => DirectoryWithoutFilename (FixFilenameSlash name)) FixFilenameSlash
      m_mount_pairs ∧
    ResolvesAsMap resolve (GetRealDirectory resolve) FixDirectorySlash FixDirectorySlash
      m_mount_pairs := by
  refine ⟨?_, fun folder point hfits p => mem_mount h.ordered hfits,
    fun point hfits hmounted p => mem_umount h.ordered (hfits hmounted),
    resolvesAsMap h.ordered ?_, resolvesAsMap h.ordered ?_⟩
  · refine List.pairwise_map.mpr (h.ordered.imp fun hno heq => hno ?_)
    rw [heq]
  · intro pairs name
    unfold GetRealFilename
    dsimp only
    cases find pairs (DirectoryWithoutFilename (FixFilenameSlash name)) with
    | none | some => rfl
  · intro pairs name
    unfold GetRealDirectory
    dsimp only
    cases find pairs (FixDirectorySlash name) with
    | none | some => rfl

/-- A point that was mounted before the one above it. -/
theorem mount_table_resolves_app :
    Reached (Mount (Mount [] "/b".toList "/app0/sub".toList) "/a".toList "/app0".toList) ∧
      GetRealFilename id (Mount (Mount [] "/b".toList "/app0/sub".toList) "/a".toList
        "/app0".toList) "/app0/sub/file".toList = "/b/file".toList := by
  have hchild : Reached (Mount [] "/b".toList "/app0/sub".toList) :=
    Reached.empty.step (.Mount _ _) ⟨by decide, by decide⟩
  have hfits : (Op.Mount "/a".toList "/app0".toList).Fits
      (Mount [] "/b".toList "/app0/sub".toList) := ⟨by decide, by decide⟩
  obtain ⟨-, -, -, hfile, -⟩ := mount_table_resolves id hchild
  refine ⟨hchild.step (.Mount _ _) hfits, ?_⟩
  have hkept := hfile.others _ _ hfits "/app0/sub/file".toList ⟨"/b/".toList, "/app0/sub/".toList⟩
    (by decide) ⟨by decide, by decide, by decide⟩
  exact hkept.trans (by decide)

/-- A point that is spelled as the folder of another unmounts it, and a point below one that is
mounted is not found. -/
theorem mount_unmounts_other :
    GetRealFilename id (Mount (Mount [] "/data".toList "/app0".toList) "/x".toList "/data".toList)
        "/app0/file".toList = "/app0/file".toList ∧
      GetRealFilename id (Mount (Mount [] "/a".toList "/app0".toList) "/b".toList
        "/app0/sub".toList) "/app0/sub/file".toList = "/a/sub/file".toList := by
  decide

/-! ## Renaming -/

section Rename

variable {Place Content : Type} [DecidableEq Place]

/-- The files of the host. Two paths name one file when they have the same place. -/
abbrev Files (Place Content : Type) := Place → Option Content

/-- Which operations of the host succeed in a call: the deletion by `KernelRename`, the one by
`MoveFile`, and the move. -/
structure Host where
  delete : Bool
  deleteAgain : Bool
  move : Bool

def IsFileExisting (files : Files Place Content) (name : Place) : Bool := (files name).isSome

def DeleteFile (ok : Bool) (files : Files Place Content) (name : Place) : Files Place Content :=
  if IsFileExisting files name ∧ ok then Function.update files name none else files

def SysFileMoveFile (ok : Bool) (files : Files Place Content) (src dst : Place) :
    Bool × Files Place Content :=
  if IsFileExisting files dst then (false, files)
  else if IsFileExisting files src ∧ ok then
    (true, Function.update (Function.update files src none) dst (files src))
  else (false, files)

def MoveFile (host : Host) (files : Files Place Content) (src dst : Place) :
    Bool × Files Place Content :=
  SysFileMoveFile host.move (DeleteFile host.deleteAgain files dst) src dst

def KernelRename (real : Path → Place) (host : Host) (files : Files Place Content)
    (source target : Option Path) : Except FileSystem.Error Unit × Files Place Content :=
  match source, target with
  | some from_path, some to_path =>
    let real_from := real from_path
    let real_to := real to_path
    if ¬ IsFileExisting files real_from then (.error .enoent, files)
    else
      let moved := MoveFile host (DeleteFile host.delete files real_to) real_from real_to
      if moved.1 then (.ok (), moved.2) else (.error .eio, moved.2)
  | _, _ => (.error .einval, files)

/-- The file is at the target alone, or every file is as it was. -/
def Atomic (files : Files Place Content) (src dst : Place)
    (result : Except FileSystem.Error Unit × Files Place Content) : Prop :=
  match result.1 with
  | .ok _ => if src = dst then result.2 = files else result.2 dst = files src ∧ result.2 src = none
  | .error _ => ∀ name content, files name = some content → result.2 name = some content

theorem deleteFile_twice (delete again : Bool) (files : Files Place Content) (dst : Place) :
    DeleteFile again (DeleteFile delete files dst) dst =
      if delete = false ∧ again = false then files else Function.update files dst none := by
  rcases hdst : files dst with _ | content <;> cases delete <;> cases again <;>
    simp_all [DeleteFile, IsFileExisting]

/-- **What a rename keeps.** Renaming is atomic unless a file at the target is deleted and the
move fails, as it does when the file is the source. -/
theorem kernelRename_atomic_iff (resolve : Path → Path) (m_mount_pairs : List MountPair)
    (place : Path → Place) (host : Host) (files : Files Place Content) (source target : Path) :
    let real := fun path => place (GetRealFilename resolve m_mount_pairs path)
    Atomic files (real source) (real target)
        (KernelRename real host files (some source) (some target)) ↔
      files (real source) = none ∨ files (real target) = none ∨
        (host.delete = false ∧ host.deleteAgain = false) ∨
        (real source ≠ real target ∧ host.move = true) := by
  intro real
  simp only [KernelRename, MoveFile, deleteFile_twice]
  generalize real source = src
  generalize real target = dst
  rcases hsrc : files src with _ | content
  · simp [IsFileExisting, hsrc, Atomic]
  rcases hdst : files dst with _ | old
  · have hne : src ≠ dst := fun heq => by simp [heq, hdst] at hsrc
    have hnone : Function.update files dst none = files := by rw [← hdst, Function.update_eq_self]
    cases hmove : host.move <;>
      simp [SysFileMoveFile, IsFileExisting, hsrc, hdst, hnone, Atomic, hne]
  by_cases hkept : host.delete = false ∧ host.deleteAgain = false
  · simp [SysFileMoveFile, IsFileExisting, hsrc, hdst, hkept, Atomic]
  · rw [if_neg hkept]
    -- The target is deleted: what is left is whether the move puts it back.
    have hlost : ∃ name content, files name = some content ∧
        ¬ Function.update files dst none name = some content := ⟨dst, old, hdst, by simp⟩
    by_cases heq : src = dst
    · subst heq
      simpa [SysFileMoveFile, IsFileExisting, hsrc, hkept, Atomic] using hlost
    · cases hmove : host.move
      · simpa [SysFileMoveFile, IsFileExisting, hsrc, hkept, hmove, Atomic] using hlost
      · simp [SysFileMoveFile, IsFileExisting, hsrc, Atomic, heq]

/-- A file that is renamed to another spelling of itself is deleted, and the move fails. -/
theorem rename_to_itself_deletes :
    let real := GetRealFilename id (Mount [] "/save".toList "/app0".toList)
    let files : Files Path ℕ := fun name => if name = "/save/a".toList then some 7 else none
    let result := KernelRename real ⟨true, true, true⟩ files (some "/app0/a".toList)
      (some "/app0//a".toList)
    ¬ Atomic files (real "/app0/a".toList) (real "/app0//a".toList) result ∧
      result.1 = .error .eio ∧ files "/save/a".toList = some 7 ∧
      result.2 "/save/a".toList = none := by
  intro real files result
  have herror : result.1 = .error .eio := by rfl
  have hbefore : files "/save/a".toList = some 7 := by decide
  have hafter : result.2 "/save/a".toList = none := by decide
  refine ⟨fun hatomic => ?_, herror, hbefore, hafter⟩
  rw [Atomic, herror] at hatomic
  rw [hatomic _ _ hbefore] at hafter
  cases hafter

end Rename

end MagnusPS5.Kernel.MountPoints
