/-
# The executable

Reads what the program needs and writes what it answers.  All decisions are made in
`Loxeme.Program`; here files are read, and what is typed in is taken line by line.
-/
import Loxeme.Program

namespace Loxeme

/-- Why the system could not give a file.  A directory is opened like a file and fails when
it is read, where the error no longer names it. -/
def readErrorOf : IO.Error → ReadError
  | .inappropriateType none .. => .isDirectory
  | .inappropriateType .. => .notDirectory
  | .invalidArgument .. => .nameTooLong
  | _ => .missing

/-- The bytes of a file on disk. -/
def readFile (p : Path) : IO (Except ReadError (List UInt8)) := do
  try
    let bytes ← IO.FS.readBinFile (String.ofList p.display)
    return .ok bytes.toList
  catch e => return .error (readErrorOf e)

/-- Writes to the standard streams. -/
def emit (v : Verbosity) (ws : List Write) : IO Unit := do
  for w in ws do
    match w with
    | .output t => (← IO.getStdout).putStr (String.ofList t)
    | .error t => (← IO.getStderr).putStr (String.ofList t)
    | .log e => (← IO.getStderr).putStr (String.ofList (v.render e))
  (← IO.getStdout).flush

/-- Lists lines as they are typed in, until the input ends. -/
partial def converse (v : Verbosity) (prompt : Text) : IO Unit := do
  emit v [.output prompt]
  answerLines
where
  answerLines : IO Unit := do
    let typed ← (← IO.getStdin).getLine
    if typed.isEmpty then emit v [.output ['\n']]
    else
      for l in (Text.unifyNewlines typed.toList).lines do
        emit v ((Listing.ofSource l .empty).writes ++ [.output prompt])
      answerLines

/-- The program with its arguments; the answer is the exit status. -/
def perform (arguments : List Text) : IO UInt32 := do
  match Invocation.ofArguments arguments with
  | .ok (.start verbose prompt none) =>
    converse (if verbose then .verbose else .quiet) prompt
    return 0
  | request =>
    let bytes ←
      match request with
      | .ok (.start _ _ (some path)) => readFile (Path.ofText path)
      | _ => pure (.error .missing)
    match Program.execute .started arguments ⟨[], fun _ => bytes⟩ with
    | .ok exit =>
      emit exit.verbosity exit.writes
      return exit.status.toNat.toUInt32
    | .error fault =>
      emit .quiet [.error (Text.line fault.message)]
      return 1

end Loxeme

/-- The entry point. -/
def main (arguments : List String) : IO UInt32 :=
  Loxeme.perform (arguments.map String.toList)
