/-
# Paths

A path is a root and the names on the way from it.  Blank names and the name `.` say
nothing and are dropped when a path is read; `..` is kept, since only a directory tree can
tell where it leads.

* `Path.ofText` reads a path and `Path.display` writes it.
-/
import Loxeme.Text.Basic

namespace Loxeme

/-- Where a path starts, and the names that it follows. -/
structure Path where
  root : Text
  names : List Text
  deriving DecidableEq, Repr

namespace Path

/-- The root of a path: one slash for any number of leading slashes but two, which are
kept. -/
def rootOf (t : Text) : Text :=
  match (t.takeWhile (· = '/')).length with
  | 0 => []
  | 2 => ['/', '/']
  | _ => ['/']

/-- A name that leads somewhere. -/
def isStep (name : Text) : Bool := name ≠ [] && name ≠ ['.']

/-- The path that a text denotes. -/
def ofText (t : Text) : Path := ⟨rootOf t, (t.splitAt '/').filter isStep⟩

/-- How a path is written.  The path that goes nowhere is a dot. -/
def display (p : Path) : Text :=
  match p.root ++ List.intercalate ['/'] p.names with
  | [] => ['.']
  | t => t

end Path
end Loxeme
