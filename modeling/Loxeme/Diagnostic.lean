/-
# Diagnostics

What is wrong with a source, and where diagnostics are kept.

* `Fault` is the cause of a lexical error; `Fault.message` its wording.
* `Diagnostic` is a message and the line it belongs to.
* `Collector` keeps the diagnostics of one or several scans in the order of their reports.
-/
import Loxeme.Text.Quoted

namespace Loxeme

/-! ## 1. Lexical errors -/

/-- What can be wrong in a source. -/
inductive Fault where
  | unexpected (c : Char)
  | unterminatedString
  deriving DecidableEq, Repr

/-- The wording of a lexical error. -/
def Fault.message : Fault → Text
  | .unexpected c => "Unexpected character ".toList ++ Text.quoted [c] ++ ['.']
  | .unterminatedString => "Unterminated string.".toList

/-- A message about a line. -/
structure Diagnostic where
  line : Int
  message : Text
  deriving DecidableEq, Repr

namespace Diagnostic

/-- The diagnostic of a lexical error. -/
def ofFault (line : Int) (fault : Fault) : Diagnostic := ⟨line, fault.message⟩

/-- What is shown for a diagnostic. -/
def display (d : Diagnostic) : Text :=
  "[line ".toList ++ Text.ofInt d.line ++ "] Error: ".toList ++ d.message

end Diagnostic

/-! ## 2. Collectors -/

/-- The diagnostics reported so far, in order. -/
structure Collector where
  diagnostics : List Diagnostic
  deriving DecidableEq, Repr

namespace Collector

/-- A collector without diagnostics. -/
def empty : Collector := ⟨[]⟩

/-- The number of diagnostics. -/
def size (c : Collector) : Nat := c.diagnostics.length

/-- Whether anything was reported. -/
def hadError (c : Collector) : Bool := !c.diagnostics.isEmpty

/-- Adds diagnostics after those already there. -/
def report (c : Collector) (ds : List Diagnostic) : Collector := ⟨c.diagnostics ++ ds⟩

/-- Forgets all diagnostics. -/
def reset (_ : Collector) : Collector := empty

@[simp] theorem diagnostics_report (c : Collector) (ds : List Diagnostic) :
    (c.report ds).diagnostics = c.diagnostics ++ ds := rfl

theorem hadError_iff (c : Collector) : c.hadError ↔ c.diagnostics ≠ [] := by
  simp [hadError]

end Collector

end Loxeme
