import WasabiOS.Machinery.Run

/-!
# Host/TreeWalk — the files of a directory tree

The builder copies a directory of the host into an image.  `next_entry` goes through the tree depth first: a walker
holds a directory that is being read and, below it, the walker of the subdirectory it is in.
-/

open Machinery
namespace WasabiOS

/-- What a directory reader has still to return; `none` is a name that is not UTF-8. -/
inductive ReadDir where
  | done
  | file (name : Option String) (next : ReadDir)
  | dir (name : Option String) (entries next : ReadDir)
  | symlink (name : Option String) (next : ReadDir)

structure FileSource where
  fileName : String
  parentDirPath : List String
  source : List String
  deriving DecidableEq, Repr

/-- How a walk fails; `todo` is a panic. -/
inductive WalkError where
  | expectedUtf8
  | todo

inductive TreeWalk where
  | mk (path : List String) (readDir : ReadDir) (recurse : Option TreeWalk) (dirInFs : List String)

/-- What the rest of a reading takes -/
def ReadDir.size : ReadDir → ℕ
  | done => 0
  | file _ next | symlink _ next => next.size + 1
  | dir _ entries next => entries.size + next.size + 2

namespace TreeWalk

def size : TreeWalk → ℕ
  | mk _ readDir none _ => readDir.size
  | mk _ readDir (some walk) _ => walk.size + readDir.size + 1

/-- `subdir`, and `new` where `dirInFs` is empty -/
def subdir (path : List String) (readDir : ReadDir) (dirInFs : List String) : TreeWalk := mk path readDir none dirInFs

/-- `into_string` -/
def intoString (name : Option String) : Except WalkError String := name.elim (.error .expectedUtf8) .ok

/-- The next file, and the walker after it -/
def nextEntry : TreeWalk → Except WalkError (Option (FileSource × TreeWalk))
  | mk path readDir (some walk) dirs => do
    match ← nextEntry walk with
    | some (entry, walk) => return some (entry, mk path readDir (some walk) dirs)
    | none => nextEntry (mk path readDir none dirs)
  | mk _ .done none _ => return none
  | mk path (.dir name entries next) none dirs => do
    let name ← intoString name
    nextEntry (mk path next (some (subdir (path ++ [name]) entries (dirs ++ [name]))) dirs)
  | mk _ (.symlink name _) none _ => do
    let _ ← intoString name
    .error .todo
  | mk path (.file name next) none dirs => do
    let name ← intoString name
    return some (⟨name, dirs, path ++ [name]⟩, mk path next none dirs)
termination_by walk => walk.size
decreasing_by all_goals simp only [size, subdir, ReadDir.size]; omega
end TreeWalk

/-- A directory tree without symlinks, all names UTF-8. -/
inductive Tree where
  | nil
  | file (name : String) (rest : Tree)
  | dir (name : String) (entries rest : Tree)

namespace Tree

/-- The tree, as it is read -/
def readDir : Tree → ReadDir
  | nil => .done
  | file name rest => .file (some name) rest.readDir
  | dir name entries rest => .dir (some name) entries.readDir rest.readDir

/-- The regular files, with the directories from the root -/
def files (path dirs : List String) : Tree → List FileSource
  | nil => []
  | file name rest => ⟨name, dirs, path ++ [name]⟩ :: rest.files path dirs
  | dir name entries rest => entries.files (path ++ [name]) (dirs ++ [name]) ++ rest.files path dirs
end Tree

namespace TreeWalk
variable {path dirs : List String} {readDir : ReadDir} {walk : TreeWalk} {fs gs : List FileSource}

/-- The files of a subdirectory come before what follows it. -/
theorem yields_sub (hsub : Yields nextEntry walk fs) (h : Yields nextEntry (mk path readDir none dirs) gs) :
    Yields nextEntry (mk path readDir (some walk) dirs) (fs ++ gs) := by
  induction hsub with
  | done hnext =>
    refine h.congr ?_
    rw [nextEntry, hnext]
    rfl
  | more hnext _ ih =>
    refine .more ?_ ih
    rw [nextEntry, hnext]
    rfl

/-- **A walk** returns every file of the tree once, with its name and directories, and ends. -/
theorem yields_files (path dirs : List String) (t : Tree) :
    Yields nextEntry (subdir path t.readDir dirs) (t.files path dirs) := by
  induction t generalizing path dirs with
  | nil => exact .done (by rw [Tree.readDir, subdir, nextEntry]; rfl)
  | file name rest ih => exact .more (by rw [Tree.readDir, subdir, nextEntry]; rfl) (ih path dirs)
  | dir name entries rest ihEntries ihRest =>
    refine (yields_sub (ihEntries (path ++ [name]) (dirs ++ [name])) (ihRest path dirs)).congr ?_
    conv_lhs => rw [Tree.readDir, subdir, nextEntry]
    rfl
end TreeWalk
end WasabiOS
