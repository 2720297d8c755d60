/-
# Scanners

A scanner walks a source piece by piece and can be stopped, inspected and moved between the
steps.  What it notices are events; a `Station` is a scanner with the collector that they are
reported to.

* `Scanner.step?` reads one piece, `Scanner.finish` all that are left.
* `step?_eq_none_iff` says that only the end of the source stops a scanner, and `step?_lt`
  that every step gets closer to it.
* `Action` lists what can be asked of a scanner, and `Station.perform` answers.  Asking for
  the tokens twice and reading past the end are the two refusals.
-/
import Loxeme.Scan

namespace Loxeme

/-- A scanner: the source, the bounds of the piece read last, the line, whether the tokens
were given out, and the tokens so far. -/
structure Scanner where
  source : Text
  start : Nat
  position : Nat
  line : Int
  finished : Bool
  tokens : List Token
  deriving DecidableEq, Repr

/-- Why a scanner refuses. -/
inductive Refusal where
  | alreadyFinished
  | endOfSource
  deriving DecidableEq, Repr

/-- The wording of a refusal. -/
def Refusal.message : Refusal → Text
  | .alreadyFinished => "scanner has already produced its tokens".toList
  | .endOfSource => "string index out of range".toList

namespace Scanner

/-! ## 1. Looking -/

/-- A scanner at the start of a source. -/
def ofSource (source : Text) : Scanner := ⟨source, 0, 0, 1, false, []⟩

/-- The characters that were not read yet. -/
def rest (s : Scanner) : Text := s.source.drop s.position

/-- What is seen past the end of the source. -/
def nothing : Char := '\x00'

/-- The next character. -/
def next (s : Scanner) : Char := s.rest.head?.getD nothing

/-- The character after the next one. -/
def afterNext (s : Scanner) : Char := s.rest.tail.head?.getD nothing

/-- Whether everything was read. -/
def atEnd (s : Scanner) : Bool := s.source.length ≤ s.position

/-! ## 2. Moving -/

/-- Makes the next piece start here. -/
def mark (s : Scanner) : Scanner := { s with start := s.position }

/-- Moves past the next character, whatever it is; lines are not counted. -/
def skip? (s : Scanner) : Option (Char × Scanner) :=
  s.rest.head?.map fun c => (c, { s with position := s.position + 1 })

/-- Moves past the next character if it is the expected text. -/
def accept (s : Scanner) (expected : Text) : Bool × Scanner :=
  match s.rest with
  | [] => (false, s)
  | c :: _ => if [c] = expected then (true, { s with position := s.position + 1 }) else (false, s)

/-- Moves past a piece and keeps its token. -/
def take (s : Scanner) (p : Piece) : Scanner :=
  let line := s.line + p.text.newlines
  { s with
    position := s.position + p.text.length
    line := line
    tokens := s.tokens ++ (p.token? line).toList }

/-- Reads one piece, if anything is left. -/
def step? (s : Scanner) : Option (Scanner × List Event) :=
  match s.rest with
  | [] => none
  | c :: cs =>
    let p := (Piece.first c cs).1
    some (s.mark.take p, (p.event? s.line).toList)

theorem step?_eq_none_iff (s : Scanner) : s.step? = none ↔ s.source.length ≤ s.position := by
  unfold step?
  split
  · rename_i h; simpa [rest] using h
  · rename_i c cs h
    have hlen := congrArg List.length h
    simp only [rest, List.length_drop, List.length_cons] at hlen
    simp; omega

/-- A step leaves the source alone and gets closer to its end. -/
theorem step?_lt {s s' : Scanner} {events : List Event} (h : s.step? = some (s', events)) :
    s'.source = s.source ∧ s.position < s'.position ∧ s.position < s.source.length := by
  unfold step? at h
  split at h
  · simp at h
  · rename_i c cs hrest
    have hlen := congrArg List.length hrest
    simp only [rest, List.length_drop, List.length_cons] at hlen
    have hpos := List.length_pos_iff.mpr (Piece.text_first_ne_nil c cs)
    simp only [Option.some.injEq, Prod.mk.injEq] at h
    obtain ⟨rfl, rfl⟩ := h
    exact ⟨rfl, by simp only [take, mark]; omega, by omega⟩

/-- All steps to the end of the source, each with the scanner after it. -/
def steps (s : Scanner) : List (Scanner × List Event) :=
  match _ : s.step? with
  | none => []
  | some (s', events) => (s', events) :: s'.steps
termination_by s.source.length - s.position
decreasing_by
  obtain ⟨hs, hlt, hend⟩ := step?_lt ‹_›
  rw [hs]; omega

/-- Reads all that is left and closes the token list. -/
def finish (s : Scanner) : Scanner × List Event :=
  let steps := s.steps
  let last := (steps.getLast?.map Prod.fst).getD s
  ({ last with finished := true, tokens := last.tokens ++ [Token.endOn last.line] },
    steps.flatMap Prod.snd)

/-- Equality of scanners, tokens compared as values. -/
def same (s s' : Scanner) : Bool :=
  s.source = s'.source && s.start = s'.start && s.position = s'.position && s.line = s'.line &&
    s.finished = s'.finished && s.tokens.length = s'.tokens.length &&
    (s.tokens.zip s'.tokens).all fun (a, b) => a.same b

end Scanner

/-! ## 3. Asking -/

/-- What can be asked of a scanner. -/
inductive Action where
  | finish
  | step
  | skip
  | next
  | afterNext
  | accept (expected : Text)
  | atEnd
  | inspect
  deriving DecidableEq, Repr

/-- What a scanner answers. -/
inductive Answer where
  | tokens (ts : List Token)
  | char (c : Char)
  | accepted (yes : Bool)
  | atEnd (yes : Bool)
  | done
  deriving DecidableEq, Repr

/-- A scanner and the collector that it reports to. -/
structure Station where
  scanner : Scanner
  collector : Collector
  deriving DecidableEq, Repr

namespace Station

/-- The station after some events: what they report goes to the collector. -/
def after (st : Station) (s : Scanner) (events : List Event) : Station :=
  ⟨s, st.collector.report (diagnosticsOf events)⟩

/-- One action: the station after it, and the answer.  A refused action changes nothing,
but the reading of a piece has then moved the start of the piece already. -/
def perform (st : Station) : Action → Station × Except Refusal Answer
  | .finish =>
    if st.scanner.finished then (st, .error .alreadyFinished)
    else
      let (s, events) := st.scanner.finish
      (st.after s events, .ok (.tokens s.tokens))
  | .step =>
    match st.scanner.step? with
    | none => ({ st with scanner := st.scanner.mark }, .error .endOfSource)
    | some (s, events) => (st.after s events, .ok (.tokens s.tokens))
  | .skip =>
    match st.scanner.skip? with
    | none => (st, .error .endOfSource)
    | some (c, s) => ({ st with scanner := s }, .ok (.char c))
  | .next => (st, .ok (.char st.scanner.next))
  | .afterNext => (st, .ok (.char st.scanner.afterNext))
  | .accept expected =>
    let (yes, s) := st.scanner.accept expected
    ({ st with scanner := s }, .ok (.accepted yes))
  | .atEnd => (st, .ok (.atEnd st.scanner.atEnd))
  | .inspect => (st, .ok .done)

end Station
end Loxeme
