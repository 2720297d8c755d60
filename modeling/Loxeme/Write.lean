/-
# Writes and streams

What the program writes is a list of `Write`s in the order in which they happen: texts for
the output, texts for the error stream, and events for the log.  The streams are read off
that list, and all are additive over concatenation.

* `outputOf` and `errorsOf` are the two streams without the log, `logOf` the log by itself.
* `consoleOf` is the error stream with the log in its place.  How much of the log is shown
  depends on a `Verbosity`.
-/
import Loxeme.Event

namespace Loxeme

/-! ## 1. Writes -/

/-- Something that is written. -/
inductive Write where
  | output (t : Text)
  | error (t : Text)
  | log (e : Event)
  deriving DecidableEq, Repr

/-- How much of the log is shown: only the wording of warnings, or every record. -/
inductive Verbosity where
  | quiet
  | verbose
  deriving DecidableEq, Repr

/-- What is shown of an event. -/
def Verbosity.render : Verbosity → Event → Text
  | quiet, e => if e.level = .warning then Text.line e.message else []
  | verbose, e => Text.line e.record

/-! ## 2. Streams -/

/-- The output stream. -/
def outputOf (ws : List Write) : Text :=
  ws.flatMap fun
    | .output t => t
    | _ => []

/-- The error stream without the log. -/
def errorsOf (ws : List Write) : Text :=
  ws.flatMap fun
    | .error t => t
    | _ => []

/-- The log as it is shown. -/
def logOf (v : Verbosity) (ws : List Write) : Text :=
  ws.flatMap fun
    | .log e => v.render e
    | _ => []

/-- The error stream with the log in its place. -/
def consoleOf (v : Verbosity) (ws : List Write) : Text :=
  ws.flatMap fun
    | .output _ => []
    | .error t => t
    | .log e => v.render e

@[simp] theorem outputOf_append (ws vs : List Write) :
    outputOf (ws ++ vs) = outputOf ws ++ outputOf vs := by simp [outputOf]

@[simp] theorem errorsOf_append (ws vs : List Write) :
    errorsOf (ws ++ vs) = errorsOf ws ++ errorsOf vs := by simp [errorsOf]

@[simp] theorem logOf_append (v : Verbosity) (ws vs : List Write) :
    logOf v (ws ++ vs) = logOf v ws ++ logOf v vs := by simp [logOf]

@[simp] theorem consoleOf_append (v : Verbosity) (ws vs : List Write) :
    consoleOf v (ws ++ vs) = consoleOf v ws ++ consoleOf v vs := by simp [consoleOf]

end Loxeme
