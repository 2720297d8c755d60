/-
# Events

What the program notes about its own work.  An event has a level, the part of the program
that it comes from, and a wording; together they make a record of the log.

* `Event.message`, `Event.level` and `Event.origin` give the three parts.
* `Event.diagnostic?` is the diagnostic that an event reports.  The diagnostics of a scan are
  read off its events, so the log and the report cannot differ.
-/
import Loxeme.Diagnostic

namespace Loxeme

/-- Something that happened. -/
inductive Event where
  | reported (d : Diagnostic)
  | skippedComment (text : Text)
  | neverClosed (line : Int)
  | scanned (tokens : Nat) (lines : Int) (errors : Nat)
  | opened (path : Text) (characters : Nat)
  deriving DecidableEq, Repr

/-- How much an event matters. -/
inductive Level where
  | debug
  | warning
  deriving DecidableEq, Repr

/-- What a level is called. -/
def Level.name : Level → Text
  | .debug => "DEBUG".toList
  | .warning => "WARNING".toList

namespace Event

/-- Only a comment that is never closed is a warning. -/
def level : Event → Level
  | neverClosed _ => .warning
  | _ => .debug

/-- The part of the program that an event comes from. -/
def origin : Event → Text
  | reported _ => "lox.errors".toList
  | opened .. => "lox.cli".toList
  | _ => "lox.scanner".toList

/-- The wording of an event. -/
def message : Event → Text
  | reported d => "reported ".toList ++ d.display
  | skippedComment t => "skipped block comment ".toList ++ t.quoted
  | neverClosed line =>
    "block comment opened on line ".toList ++ Text.ofInt line ++ " is never closed".toList
  | scanned tokens lines errors =>
    "scanned ".toList ++ Text.ofNat tokens ++ " tokens over ".toList ++ Text.ofInt lines ++
      " lines (".toList ++ Text.ofNat errors ++ " errors)".toList
  | opened path characters =>
    "scanning ".toList ++ path ++ " (".toList ++ Text.ofNat characters ++ " characters)".toList

/-- The record of an event: level, origin and wording. -/
def record (e : Event) : Text :=
  e.level.name ++ [' '] ++ e.origin ++ ": ".toList ++ e.message

/-- The diagnostic that an event reports. -/
def diagnostic? : Event → Option Diagnostic
  | reported d => some d
  | _ => none

end Event

/-- The diagnostics that events report, in order. -/
def diagnosticsOf (events : List Event) : List Diagnostic := events.filterMap Event.diagnostic?

@[simp] theorem diagnosticsOf_append (es fs : List Event) :
    diagnosticsOf (es ++ fs) = diagnosticsOf es ++ diagnosticsOf fs := by
  simp [diagnosticsOf]

end Loxeme
