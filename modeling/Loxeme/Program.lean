/-
# The program

The three ways to use the program: on a file, on lines that are typed in, and as its
arguments say.

* `Program.onFile` lists one file as a whole; `Program.onLines` lists every line by itself,
  with a prompt before each and a collector emptied after each.
* `Program.execute` reads the arguments and does one of these, or explains itself.  What it
  needs of its surroundings is an `Environment`; what it does is an `Exit`.
-/
import Loxeme.FileTree
import Loxeme.Options
import Loxeme.Listing
import Loxeme.Text.Newlines

namespace Loxeme.Program

/-! ## 1. Statuses -/

namespace Status

/-- Nothing is wrong. -/
def ok : Int := 0

/-- The command line cannot be honoured. -/
def usage : Int := UsageFault.defaultStatus

/-- Something was reported about the source. -/
def dataError : Int := 65

/-- The file cannot be read. -/
def noInput : Int := 66

end Status

/-- A path that cannot even be tried. -/
inductive PathFault where
  | embeddedNul
  deriving DecidableEq, Repr

/-- The wording of a fault. -/
def PathFault.message : PathFault → Text
  | .embeddedNul => "embedded null byte".toList

/-- How reading a file can go, by its path. -/
abbrev Reader := Path → Except ReadError (List UInt8)

/-! ## 2. Files -/

/-- The text of a file: UTF-8 with one newline for every line end. -/
def textOfBytes (bytes : List UInt8) : Text := Text.unifyNewlines (Utf8.decode bytes)

/-- Lists a file.  It has the status `Status.dataError` if anything is reported. -/
def onFile (path : Text) (read : Reader) : Except PathFault (Int × List Write) :=
  if path.contains '\x00' then .error .embeddedNul
  else
    let p := Path.ofText path
    match read p with
    | .error e =>
      let message := "lox: cannot read ".toList ++ p.display ++ ": ".toList ++ e.reason
      .ok (Status.noInput, [.error (Text.line message)])
    | .ok bytes =>
      let source := textOfBytes bytes
      let listing := Listing.ofSource source .empty
      let status := if listing.collector.hadError then Status.dataError else Status.ok
      .ok (status, .log (.opened p.display source.length) :: listing.writes)

/-! ## 3. Lines -/

/-- Lists lines one by one.  The prompt stands before every line and once more before the
end of the input, which a newline answers. -/
def listLines (prompt : Text) (held : Collector) : List Text → List Write
  | [] => [.output prompt, .output ['\n']]
  | l :: ls =>
    let listing := Listing.ofSource l held
    .output prompt :: listing.writes ++ listLines prompt listing.collector.reset ls

/-- Lists what is typed in.  The status is always `Status.ok`. -/
def onLines (prompt input : Text) : Int × List Write :=
  (Status.ok, listLines prompt .empty input.lines)

/-! ## 4. The program -/

/-- How the program is called. -/
def usageLine : Text := "usage: lox [-h] [--prompt PROMPT] [-v] [script]".toList

/-- What the program says about itself. -/
def helpText : Text :=
  ([usageLine,
    "".toList,
    "Scan Lox source into tokens".toList,
    "".toList,
    "positional arguments:".toList,
    "  script           path to a source file; omit for an interactive prompt".toList,
    "".toList,
    "options:".toList,
    "  -h, --help       show this help message and exit".toList,
    "  --prompt PROMPT  prompt shown in interactive mode".toList,
    "  -v, --verbose    log scanner activity to stderr".toList].map Text.line).flatten

/-- What is said about arguments that cannot be read: how the program is called, and what is
wrong. -/
def usageFault (e : OptionError) : UsageFault :=
  ⟨Text.line usageLine ++ "lox: error: ".toList ++ e.message, Status.usage⟩

/-- The surroundings of the program: what is typed in, and the files. -/
structure Environment where
  input : Text
  read : Reader

/-- Whether the program is called by another one, which gets its status back, or is started
by itself, when it exits with it. -/
inductive Launch where
  | called
  | started
  deriving DecidableEq, Repr

/-- What the program did: the status, whether it exited instead of returning, what it wrote,
and how much of its log is to be shown. -/
structure Exit where
  status : Int
  exited : Bool
  writes : List Write
  verbosity : Verbosity
  deriving DecidableEq, Repr

/-- The program. -/
def execute (launch : Launch) (arguments : List Text) (env : Environment) :
    Except PathFault Exit :=
  let started : Bool := launch = .started
  match Invocation.ofArguments arguments with
  | .error e =>
    let fault := usageFault e
    .ok ⟨fault.status, started, [.error (Text.line fault.message)], .quiet⟩
  | .ok .help => .ok ⟨Status.ok, true, [.output helpText], .quiet⟩
  | .ok (.start verbose prompt script) =>
    let verbosity : Verbosity := if verbose then .verbose else .quiet
    match script with
    | some path =>
      (onFile path env.read).map fun (status, writes) => ⟨status, started, writes, verbosity⟩
    | none =>
      let (status, writes) := onLines prompt (Text.unifyNewlines env.input)
      .ok ⟨status, started, writes, verbosity⟩

end Loxeme.Program
