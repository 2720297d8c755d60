/-
# Command lines

What the arguments of the program ask for.  There are three options and one positional
argument, the script.

* Every argument is first classified by itself, except that after `--` all are positional
  (`classify`).  A long option may be shortened as long as one option is meant.
* The arguments are then consumed from left to right (`consume`).  Joined short options take
  effect only if all of them are understood; help takes effect at once, so what stands after
  it is not looked at.
* What nobody consumed is reported at the end, all together.

`Invocation.ofArguments` is the whole reading.
-/
import Loxeme.Text.DecimalDigit
import Loxeme.Text.Quoted

namespace Loxeme

/-! ## 1. Options -/

/-- The options of the program. -/
inductive Switch where
  | help
  | prompt
  | verbose
  deriving DecidableEq, Repr

namespace Switch

/-- The names of the options, in the order in which they are introduced. -/
def names : List (Text × Switch) :=
  [("-h".toList, help), ("--help".toList, help), ("--prompt".toList, prompt),
    ("-v".toList, verbose), ("--verbose".toList, verbose)]

/-- How an option is called in a message: all its names. -/
def display (s : Switch) : Text :=
  List.intercalate ['/'] ((names.filter (·.2 = s)).map Prod.fst)

end Switch

/-- What is wrong with some arguments. -/
inductive OptionError where
  | ambiguous (argument : Text) (candidates : List Text)
  | ignoredValue (s : Switch) (value : Text)
  | missingValue (s : Switch)
  | unrecognized (arguments : List Text)
  deriving DecidableEq, Repr

/-- The wording of what is wrong. -/
def OptionError.message : OptionError → Text
  | ambiguous argument candidates =>
    "ambiguous option: ".toList ++ argument ++ " could match ".toList ++
      List.intercalate ", ".toList candidates
  | ignoredValue s value =>
    "argument ".toList ++ s.display ++ ": ignored explicit argument ".toList ++ value.quoted
  | missingValue s => "argument ".toList ++ s.display ++ ": expected one argument".toList
  | unrecognized arguments => "unrecognized arguments: ".toList ++ Text.unwords arguments

/-- What is said about a command line that cannot be honoured, and the status that the
program then has. -/
structure UsageFault where
  message : Text
  status : Int
  deriving DecidableEq, Repr

/-- The status of a usage fault that names none. -/
def UsageFault.defaultStatus : Int := 64

/-! ## 2. Single arguments -/

/-- What one argument is: a positional argument or a value, the separator `--`, an option
under one of its names with the value joined to it, or an option that nobody knows. -/
inductive Mark where
  | plain
  | separator
  | option (name : Text) (s : Switch) (value : Option Text)
  | unknown
  deriving DecidableEq, Repr

/-- A text cut at its first `=`, with what follows it. -/
def splitEquals (t : Text) : Text × Option Text :=
  match t.dropWhile (· ≠ '=') with
  | [] => (t, none)
  | _ :: value => (t.takeWhile (· ≠ '='), some value)

/-- A minus sign with digits, or with digits, a point and digits, of which only the last are
needed.  One newline may follow. -/
def looksNegative (t : Text) : Bool :=
  match t with
  | '-' :: body =>
    let body := if body.getLast? = some '\n' then body.dropLast else body
    let whole := body.takeWhile isDecimalDigit
    match body.dropWhile isDecimalDigit with
    | [] => whole ≠ []
    | c :: fraction => c = '.' && fraction ≠ [] && fraction.all isDecimalDigit
  | _ => false

/-- The options that an argument can mean, each with its name and value.  An argument with
two dashes is the start of a name, up to its `=`; one with a single dash is a short name with
its value right behind it. -/
def candidates (t : Text) : List (Text × Switch × Option Text) :=
  match t with
  | '-' :: '-' :: _ =>
    let (start, value) := splitEquals t
    (Switch.names.filter fun (name, _) => start.isPrefixOf name).map
      fun (name, s) => (name, s, value)
  | _ =>
    (Switch.names.filter fun (name, _) => name = t.take 2).map
      fun (name, s) => (name, s, some (t.drop 2))

/-- The option whose whole name an argument is, or is up to its first `=`. -/
def named? (t : Text) : Option Mark :=
  match Switch.names.lookup t with
  | some s => some (.option t s none)
  | none =>
    match splitEquals t with
    | (_, none) => none
    | (name, some value) => (Switch.names.lookup name).map fun s => .option name s (some value)

/-- What an argument other than `--` is. -/
def markOf (t : Text) : Except OptionError Mark :=
  if t.head? ≠ some '-' ∨ t.length = 1 then .ok .plain
  else
    match named? t with
    | some m => .ok m
    | none =>
      match candidates t with
      | [(name, s, value)] => .ok (.option name s value)
      | [] => .ok (if looksNegative t || t.contains ' ' then .plain else .unknown)
      | several => .error (.ambiguous t (several.map Prod.fst))

/-- All arguments with what they are. -/
def classify : List Text → Except OptionError (List (Text × Mark))
  | [] => .ok []
  | t :: ts =>
    if t = ['-', '-'] then .ok ((t, .separator) :: ts.map fun u => (u, .plain))
    else do
      let m ← markOf t
      return (t, m) :: (← classify ts)

/-! ## 3. Left to right -/

/-- What the arguments ask for. -/
inductive Invocation where
  | help
  | start (verbose : Bool) (prompt : Text) (script : Option Text)
  deriving DecidableEq, Repr

/-- What was consumed so far: the settings, the positional argument, and the arguments that
nobody consumed. -/
structure Consumed where
  verbose : Bool
  prompt : Text
  script : Option Text
  leftOver : List Text
  deriving DecidableEq, Repr

namespace Consumed

/-- The prompt of a program that is told of none. -/
def defaultPrompt : Text := "> ".toList

/-- Nothing consumed. -/
def nothing : Consumed := ⟨false, defaultPrompt, none, []⟩

/-- The prompt that a value sets.  A joined `--` is taken for the separator and removed,
which leaves an empty list of values, and that is shown by its brackets. -/
def promptOf (value : Text) : Text := if value = ['-', '-'] then ['[', ']'] else value

/-- Notes arguments that nobody consumes. -/
def leave (c : Consumed) (ts : List Text) : Consumed := { c with leftOver := c.leftOver ++ ts }

/-- Consumes the one positional argument. -/
def takeScript (c : Consumed) (script : Text) : Consumed := { c with script := some script }

/-- The request that is left when all arguments were consumed. -/
def result (c : Consumed) : Except OptionError Invocation :=
  if c.leftOver = [] then .ok (.start c.verbose c.prompt c.script)
  else .error (.unrecognized c.leftOver)

end Consumed

/-- The options that are joined behind a short option `s`, itself first: every further
character has to be a short option too. -/
def shortOptions (s : Switch) : Text → Except OptionError (List Switch)
  | [] => .ok [s]
  | c :: rest =>
    match Switch.names.lookup ['-', c] with
    | some next => (shortOptions next rest).map (s :: ·)
    | none => .error (.ignoredValue s (c :: rest))

/-- The options that an argument stands for: the option `s` under the given name, and what
a value joined to it adds.  An option that takes no value refuses one, unless the name is
short and the value is more short options. -/
def switchesOf (name : Text) (s : Switch) : Option Text → Except OptionError (List Switch)
  | none => .ok [s]
  | some value =>
    if name.length = 2 ∧ value ≠ [] then shortOptions s value else .error (.ignoredValue s value)

/-- Reads the arguments from left to right. -/
def consume (c : Consumed) : List (Text × Mark) → Except OptionError Invocation
  | [] => c.result
  | (t, .plain) :: rest =>
    if c.script.isSome then consume (c.leave [t]) rest
    else
      match rest with
      | (_, .separator) :: rest => consume (c.takeScript t) rest
      | rest => consume (c.takeScript t) rest
  | (t, .separator) :: rest =>
    if c.script.isSome then (c.leave (t :: rest.map Prod.fst)).result
    else
      match rest with
      | [] => c.result
      | (script, _) :: rest => ((c.takeScript script).leave (rest.map Prod.fst)).result
  | (t, .unknown) :: rest => consume (c.leave [t]) rest
  | (_, .option _ .prompt (some value)) :: rest =>
    consume { c with prompt := Consumed.promptOf value } rest
  | (_, .option _ .prompt none) :: rest =>
    match rest with
    | (value, .plain) :: rest => consume { c with prompt := value } rest
    | _ => .error (.missingValue .prompt)
  | (_, .option name s value) :: rest =>
    match switchesOf name s value with
    | .error e => .error e
    | .ok switches =>
      if .help ∈ switches then .ok .help else consume { c with verbose := true } rest

/-- What a list of arguments asks for. -/
def Invocation.ofArguments (arguments : List Text) : Except OptionError Invocation := do
  consume .nothing (← classify arguments)

end Loxeme
