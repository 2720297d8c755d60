/-
# Listings

Scanning one unit of input and showing what came of it: every token on the output, then
every diagnostic that the collector holds by now on the error stream.  The log of the scan
comes before both.

* `Listing.ofSource` is the listing of a source for a collector, which may hold diagnostics
  from before; those are shown again.
-/
import Loxeme.Scan
import Loxeme.Write

namespace Loxeme

/-- What came of a unit of input: the tokens, the collector afterwards, and the writes. -/
structure Listing where
  tokens : List Token
  collector : Collector
  writes : List Write
  deriving DecidableEq, Repr

namespace Listing

/-- The line that shows a token. -/
def tokenLine (t : Token) : Write := .output (Text.line t.display)

/-- The line that shows a diagnostic. -/
def diagnosticLine (d : Diagnostic) : Write := .error (Text.line d.display)

/-- Scans a source and shows its tokens, then all diagnostics of the collector. -/
def ofSource (source : Text) (held : Collector) : Listing :=
  let s := Scan.ofSource source
  let collector := held.report s.diagnostics
  { tokens := s.tokens
    collector := collector
    writes := (s.log held.size).map Write.log ++ s.tokens.map tokenLine ++
      collector.diagnostics.map diagnosticLine }

end Listing
end Loxeme
