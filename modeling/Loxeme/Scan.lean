/-
# Scans

What a whole source amounts to: its tokens, the diagnostics about it, and the events of
reading it.  All three are read off the pieces of the source, each placed on the line on
which it starts.

* `place` counts the lines, and `Scan.ofSource` collects.
* Tokens and diagnostics stand in the order of their pieces; an end token closes the list,
  and a summary closes the events.
-/
import Loxeme.Piece

namespace Loxeme

/-! ## 1. Pieces on lines -/

/-- A piece and the line on which it starts. -/
structure Placed where
  piece : Piece
  line : Int
  deriving DecidableEq, Repr

namespace Placed

/-- The line on which a piece ends. -/
def endLine (p : Placed) : Int := p.line + p.piece.text.newlines

/-- The token of a placed piece, if it is one. -/
def token? (p : Placed) : Option Token := p.piece.token? p.endLine

/-- The event of a placed piece, if it is worth one. -/
def event? (p : Placed) : Option Event := p.piece.event? p.line

end Placed

/-- Pieces placed one after the other, the first on `line`. -/
def place (line : Int) : List Piece → List Placed
  | [] => []
  | p :: ps => ⟨p, line⟩ :: place (line + p.text.newlines) ps

theorem place_append (line : Int) (ps qs : List Piece) :
    place line (ps ++ qs) =
      place line ps ++ place (line + Text.newlines (ps.map Piece.text).flatten) qs := by
  induction ps generalizing line with
  | nil => simp [place]
  | cons p ps ih => simp [place, ih, Int.add_assoc]

@[simp] theorem map_piece_place (line : Int) (ps : List Piece) :
    (place line ps).map Placed.piece = ps := by
  induction ps generalizing line with
  | nil => rfl
  | cons p ps ih => rw [place, List.map_cons, ih]

/-! ## 2. The scan of a source -/

/-- The result of a scan: all tokens with the end token, the diagnostics of the source, and
the number of lines. -/
structure Scan where
  tokens : List Token
  events : List Event
  lines : Int
  deriving DecidableEq, Repr

namespace Scan

/-- The diagnostics about the source. -/
def diagnostics (s : Scan) : List Diagnostic := diagnosticsOf s.events

/-- The events with the summary that closes them.  It counts all that the collector holds,
`held` diagnostics from before included. -/
def log (s : Scan) (held : Nat) : List Event :=
  s.events ++ [.scanned s.tokens.length s.lines (held + s.diagnostics.length)]

/-- The scan of a source that starts on `line`. -/
def startingOn (line : Int) (source : Text) : Scan :=
  let placed := place line (pieces source)
  let lines := line + source.newlines
  { tokens := placed.filterMap Placed.token? ++ [Token.endOn lines]
    events := placed.filterMap Placed.event?
    lines := lines }

/-- The scan of a source.  Its first line has number 1. -/
def ofSource (source : Text) : Scan := startingOn 1 source

end Scan
end Loxeme
