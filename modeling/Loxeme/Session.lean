/-
# Sessions

Several scanners and collectors at work together.  Collectors are shared: a scanner is given
one or makes its own, and whoever refers to it sees all reports.  So a session keeps the
collectors apart from the names and the scanners that refer to them.

* `Session.perform` does one `Step`, and `Session.performAll` several in order.  A step that
  fails leaves the session as the failing action leaves it, and the next one goes on.
-/
import Loxeme.Scanner
import Loxeme.Listing

namespace Loxeme

/-! ## 1. State and references -/

/-- A scanner and the place of its collector. -/
structure Attached where
  scanner : Scanner
  collector : Nat
  deriving DecidableEq, Repr

/-- All collectors by place, and the names in use, the newest first. -/
structure Session where
  collectors : List Collector
  collectorNames : List (Text × Nat)
  scanners : List (Text × Attached)
  deriving DecidableEq, Repr

/-- How a collector is referred to: by its own name, or through a scanner that uses it. -/
inductive CollectorRef where
  | named (name : Text)
  | usedBy (scanner : Text)
  deriving DecidableEq, Repr

/-- Why a step fails. -/
inductive StepError where
  | unknownName (name : Text)
  | refused (r : Refusal)
  deriving DecidableEq, Repr

/-- The wording of a failure. -/
def StepError.message : StepError → Text
  | .unknownName name => name.quoted
  | .refused r => r.message

namespace Session

/-- A session in which nothing happened yet. -/
def empty : Session := ⟨[], [], []⟩

/-- The scanner with a given name. -/
def scanner (s : Session) (name : Text) : Except StepError Attached :=
  match s.scanners.lookup name with
  | some a => .ok a
  | none => .error (.unknownName name)

/-- The place of the collector that is referred to. -/
def placeOf (s : Session) : CollectorRef → Except StepError Nat
  | .named name =>
    match s.collectorNames.lookup name with
    | some i => .ok i
    | none => .error (.unknownName name)
  | .usedBy name => (s.scanner name).map Attached.collector

/-- The collector at a place. -/
def collectorAt (s : Session) (i : Nat) : Collector := (s.collectors[i]?).getD .empty

/-- Puts a collector at a place. -/
def setCollector (s : Session) (i : Nat) (c : Collector) : Session :=
  { s with collectors := s.collectors.set i c }

/-- Makes a new empty collector; its place is the number of those before. -/
def addCollector (s : Session) : Session × Nat :=
  ({ s with collectors := s.collectors ++ [.empty] }, s.collectors.length)

/-- The place of the collector that is referred to, or of a new one. -/
def placeOrNew (s : Session) : Option CollectorRef → Except StepError (Session × Nat)
  | some r => (s.placeOf r).map fun i => (s, i)
  | none => .ok s.addCollector

/-! ## 2. Steps -/

/-- What can be done in a session. -/
inductive Step where
  | newCollector (name : Text)
  | report (collector : CollectorRef) (d : Diagnostic)
  | reset (collector : CollectorRef)
  | list (collector : CollectorRef)
  | sameDiagnostics (a b : CollectorRef)
  | show (source : Text) (collector : CollectorRef)
  | scan (source : Text) (collector : Option CollectorRef)
  | newScanner (name source : Text) (collector : Option CollectorRef)
  | sameScanners (a b : Text)
  | act (scanner : Text) (action : Action)
  deriving DecidableEq, Repr

/-- What a step gives. -/
inductive Outcome where
  | collector (c : Collector)
  | listed (c : Collector)
  | equal (yes : Bool)
  | printed (writes : List Write)
  | tokens (ts : List Token)
  | station (st : Station)
  | answered (a : Answer) (st : Station)
  deriving DecidableEq, Repr

/-- Changes the collector that is referred to. -/
def updateCollector (s : Session) (r : CollectorRef) (f : Collector → Collector) :
    Session × Except StepError Outcome :=
  match s.placeOf r with
  | .error e => (s, .error e)
  | .ok i =>
    let c := f (s.collectorAt i)
    (s.setCollector i c, .ok (.collector c))

/-- The station of a scanner: it and its collector. -/
def stationOf (s : Session) (a : Attached) : Station := ⟨a.scanner, s.collectorAt a.collector⟩

/-- Two scanners are the same if they and what their collectors hold are. -/
def sameStations (st st' : Station) : Bool :=
  st.scanner.same st'.scanner && st.collector = st'.collector

/-- Lets a scanner act, and keeps what becomes of it and of its collector. -/
def act (s : Session) (name : Text) (action : Action) : Session × Except StepError Outcome :=
  match s.scanner name with
  | .error e => (s, .error e)
  | .ok a =>
    let (st, answer) := (s.stationOf a).perform action
    let after := s.setCollector a.collector st.collector
    ({ after with scanners := (name, ⟨st.scanner, a.collector⟩) :: after.scanners },
      match answer with
      | .error r => .error (.refused r)
      | .ok x => .ok (.answered x st))

/-- What a question gives, the session being left as it is. -/
def ask (s : Session) (answer : Except StepError Outcome) : Session × Except StepError Outcome :=
  (s, answer)

/-- Does one step. -/
def perform (s : Session) : Step → Session × Except StepError Outcome
  | .newCollector name =>
    let (s, i) := s.addCollector
    ({ s with collectorNames := (name, i) :: s.collectorNames }, .ok (.collector .empty))
  | .report r d => s.updateCollector r (·.report [d])
  | .reset r => s.updateCollector r Collector.reset
  | .list r => s.ask do return .listed (s.collectorAt (← s.placeOf r))
  | .sameDiagnostics a b => s.ask do
    return .equal (s.collectorAt (← s.placeOf a) = s.collectorAt (← s.placeOf b))
  | .show source r =>
    match s.placeOf r with
    | .error e => (s, .error e)
    | .ok i =>
      let listing := Listing.ofSource source (s.collectorAt i)
      (s.setCollector i listing.collector, .ok (.printed listing.writes))
  | .scan source r =>
    match s.placeOrNew r with
    | .error e => (s, .error e)
    | .ok (s, i) =>
      let result := Scan.ofSource source
      (s.setCollector i ((s.collectorAt i).report result.diagnostics), .ok (.tokens result.tokens))
  | .newScanner name source r =>
    match s.placeOrNew r with
    | .error e => (s, .error e)
    | .ok (s, i) =>
      let a : Attached := ⟨.ofSource source, i⟩
      ({ s with scanners := (name, a) :: s.scanners }, .ok (.station (s.stationOf a)))
  | .sameScanners a b => s.ask do
    return .equal (sameStations (s.stationOf (← s.scanner a)) (s.stationOf (← s.scanner b)))
  | .act name action => s.act name action

/-- Does all steps in order. -/
def performAll (s : Session) : List Step → Session × List (Except StepError Outcome)
  | [] => (s, [])
  | step :: steps =>
    let (s, outcome) := s.perform step
    let (s, outcomes) := s.performAll steps
    (s, outcome :: outcomes)

end Session
end Loxeme
