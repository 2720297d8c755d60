/-
# File trees

The files that can be read: a tree of directories, and a working directory that paths start
from.  What lies above the working directory are directories of unknown content.

* `FileTree.read` follows a path and gives the bytes of a file, or the reason why there are
  none.  The names are followed one by one, and the first that leads nowhere decides.
-/
import Loxeme.Path
import Loxeme.Text.Utf8

namespace Loxeme

/-! ## 1. Trees -/

/-- Why a path cannot be read. -/
inductive ReadError where
  | missing
  | isDirectory
  | notDirectory
  | nameTooLong
  deriving DecidableEq, Repr

/-- The reason that is given. -/
def ReadError.reason : ReadError → Text
  | missing => "No such file or directory".toList
  | isDirectory => "Is a directory".toList
  | notDirectory => "Not a directory".toList
  | nameTooLong => "File name too long".toList

/-- The files and directories below the working directory, each by the names that lead to
it.  The directories on the way to a file or directory need no entry of their own. -/
structure FileTree where
  files : List (List Text × List UInt8)
  directories : List (List Text)
  deriving Repr

/-- What a name leads to. -/
inductive FileTree.Entry where
  | file (bytes : List UInt8)
  | directory
  deriving DecidableEq, Repr

/-- Where a walk stands: below the working directory, which is `below []`, or some levels
above it. -/
inductive FileTree.Spot where
  | below (names : List Text)
  | above (levels : Nat)
  deriving DecidableEq, Repr

namespace FileTree

/-- The longest name that a directory can hold, in bytes. -/
def maxName : Nat := 255

/-- The longest path that can be followed, in bytes. -/
def maxPath : Nat := 4095

/-- What stands at some names below the working directory. -/
def entry? (tree : FileTree) (names : List Text) : Option Entry :=
  match tree.files.lookup names with
  | some bytes => some (.file bytes)
  | none =>
    let known := tree.files.map Prod.fst ++ tree.directories
    if names = [] ∨ known.any (fun other => names.isPrefixOf other) then some .directory else none

/-! ## 2. Walks -/

/-- What a walk finds where it stands. -/
def entryAt? (tree : FileTree) : Spot → Option Entry
  | .below names => tree.entry? names
  | .above _ => some .directory

/-- One level up. -/
def Spot.parent : Spot → Spot
  | below [] => above 1
  | below names => below names.dropLast
  | above levels => above (levels + 1)

/-- One name further.  What stands above the working directory holds no known name. -/
def Spot.child? : Spot → Text → Option Spot
  | below names, name => some (below (names ++ [name]))
  | above _, _ => none

/-- Follows one name from a spot that exists. -/
def step (tree : FileTree) (spot : Spot) (name : Text) : Except ReadError Spot :=
  match tree.entryAt? spot with
  | none => .error .missing
  | some (.file _) => .error .notDirectory
  | some .directory =>
    if name = ['.', '.'] then .ok spot.parent
    else if maxName < (Utf8.encode name).length then .error .nameTooLong
    else
      match spot.child? name with
      | none => .error .missing
      | some next => if (tree.entryAt? next).isSome then .ok next else .error .missing

/-- Where a path starts. -/
def origin (p : Path) : Spot := if p.root = [] then .below [] else .above 1

/-- The bytes of the file at the end of a path. -/
def read (tree : FileTree) (p : Path) : Except ReadError (List UInt8) :=
  if maxPath < (Utf8.encode p.display).length then .error .nameTooLong
  else
    match p.names.foldlM tree.step (origin p) with
    | .error e => .error e
    | .ok spot =>
      match tree.entryAt? spot with
      | some (.file bytes) => .ok bytes
      | some .directory => .error .isDirectory
      | none => .error .missing

end FileTree
end Loxeme
