import Fluffycoin.Ossl.Convert
import Fluffycoin.Utils.SortedMap

/-!
# `FileTools`

Model of what the curator uses of `src/utils/FileTools.cpp`: `read`, `write` and `listFiles` without
recursion. The file system is the contents of its regular files and the directories it has, by path.
Paths are compared as they are written, without resolving links, dots or doubled slashes, and the
operating system fails only for want of a directory.

`read` and `write` expand a `~` at the front of a path (`FileTools.cpp:12-22`), `listFiles` takes
the path as it is.
-/

namespace Fluffycoin

open Std (ExtTreeMap)

/-- The file system and the environment variable `HOME`, empty when it is not set. -/
structure FileSystem where
  files : ExtTreeMap (List Char) Bytes := ∅
  dirs : List (List Char) := []
  home : List Char := []

namespace FileTools

/-- `expandTilde`. -/
def expandTilde (home path : List Char) : List Char :=
  if path.head? = some '~' ∧ home ≠ [] then home ++ path.tail else path

/-- The directory of a path: what stands before its last slash. -/
def parent (path : List Char) : List Char :=
  ((path.reverse.dropWhile (· ≠ '/')).drop 1).reverse

/-- `std::filesystem::exists`, of a directory. There is none of an empty name. -/
def isDir (fs : FileSystem) (path : List Char) : Bool := path ≠ [] && fs.dirs.contains path

/-- `FileTools::read`. -/
def read (fs : FileSystem) (path : List Char) : Option Bytes :=
  fs.files[expandTilde fs.home path]?

/-- `FileTools::write`. A path without a directory is in the working directory or the root. -/
def write (fs : FileSystem) (path : List Char) (data : Bytes) : Bool × FileSystem :=
  let path := expandTilde fs.home path
  if (parent path = [] || isDir fs (parent path)) && !isDir fs path then
    (true, { fs with files := fs.files.insert path data })
  else (false, fs)

/-- The name of a file in a directory, if that is where it is. -/
def nameIn (dir path : List Char) : Option (List Char) :=
  if (dir ++ ['/']).isPrefixOf path && !(path.drop (dir.length + 1)).contains '/' then
    some (path.drop (dir.length + 1))
  else none

/-- `FileTools::listFiles`. A directory is listed in the order of the names; the system promises
none. -/
def listFiles (fs : FileSystem) (path : List Char) : Option (List (List Char)) :=
  if isDir fs path then some (fs.files.keys.filterMap (nameIn path)) else none

/-! ## A file in a directory -/

variable {fs fs' : FileSystem} {dir name path home : List Char} {data : Bytes}

theorem expandTilde_append (home dir name : List Char) :
    expandTilde home (dir ++ '/' :: name) = expandTilde home dir ++ '/' :: name := by
  cases dir with
  | nil => simp [expandTilde]
  | cons c dir =>
    have hhead : (c :: dir ++ '/' :: name).head? = (c :: dir).head? := rfl
    unfold expandTilde
    rw [hhead]
    split
    · exact (List.append_assoc _ _ _).symm
    · rfl

theorem nameIn_eq_some_iff (h : '/' ∉ name) :
    nameIn dir path = some name ↔ path = dir ++ '/' :: name := by
  have hassoc : dir ++ '/' :: name = (dir ++ ['/']) ++ name := by
    rw [List.append_assoc, List.singleton_append]
  have hlen : (dir ++ ['/']).length = dir.length + 1 := List.length_append
  constructor
  · intro hname
    unfold nameIn at hname
    split at hname
    · rename_i hif
      obtain ⟨rest, rfl⟩ := List.isPrefixOf_iff_prefix.mp (Bool.and_eq_true_iff.mp hif).1
      rw [List.drop_left' hlen, Option.some.injEq] at hname
      rw [hassoc, hname]
    · cases hname
  · rintro rfl
    have hdrop : (dir ++ '/' :: name).drop (dir.length + 1) = name := by
      rw [hassoc, List.drop_left' hlen]
    have hprefix : (dir ++ ['/']).isPrefixOf (dir ++ '/' :: name) = true := by
      rw [List.isPrefixOf_iff_prefix, hassoc]
      exact List.prefix_append _ _
    have hcontains : name.contains '/' = false := by
      rw [List.contains_eq_mem]
      exact decide_eq_false h
    rw [nameIn, hdrop, hprefix, hcontains]
    rfl

theorem mem_listFiles_iff (h : '/' ∉ name) :
    (∃ l, listFiles fs dir = some l ∧ name ∈ l) ↔
      isDir fs dir = true ∧ dir ++ '/' :: name ∈ fs.files := by
  have hmem : name ∈ fs.files.keys.filterMap (nameIn dir) ↔ dir ++ '/' :: name ∈ fs.files := by
    rw [List.mem_filterMap]
    constructor
    · rintro ⟨path, hpath, hname⟩
      rw [(nameIn_eq_some_iff h).mp hname] at hpath
      exact ExtTreeMap.mem_keys.mp hpath
    · intro hpath
      exact ⟨_, ExtTreeMap.mem_keys.mpr hpath, (nameIn_eq_some_iff h).mpr rfl⟩
  unfold listFiles
  by_cases hdir : isDir fs dir = true
  · rw [if_pos hdir, and_iff_right hdir, ← hmem]
    constructor
    · rintro ⟨l, hl, hname⟩
      rwa [← Option.some.inj hl] at hname
    · intro hname
      exact ⟨_, rfl, hname⟩
  · rw [if_neg hdir]
    exact iff_of_false (fun ⟨l, hl, _⟩ => by cases hl) fun hboth => hdir hboth.1

/-- What a write that succeeded has done. -/
theorem write_eq (h : write fs path data = (true, fs')) :
    fs' = { fs with files := fs.files.insert (expandTilde fs.home path) data } := by
  unfold write at h
  simp only at h
  split at h
  · exact (congrArg Prod.snd h).symm
  · cases h

theorem read_write (h : write fs path data = (true, fs')) : read fs' path = some data := by
  rw [write_eq h]
  exact ExtTreeMap.getElem?_insert_self

end FileTools

end Fluffycoin
