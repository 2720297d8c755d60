/-
# Bodies

What stands between the quotes of a string, or between the ends of a block comment, is nobody
else's business.  This module writes another body in its place and compares the two scans.

Both runs take the same steps before the change: the pieces there look ahead, but as far as the
first character of the changed piece at most, unless that is a point; and it is a quote or a
slash.  The changed piece ends where it ended, however many quotes, stars and openers of comments
there are in its new body.  From there on the rest is scanned again, on other lines.

* `Enclosure` is a kind of piece that has a body, and `Admits` says which bodies it can have.
* `Proper.replace`: a piece in a cut can be replaced by another that begins with the same
  character.
* `startingOn_layOut` separates what the steps before a place give from a scan of the rest.
* `scan_replaceBody` compares the scans of two bodies, and `scan_replaceIn` is the law for strings
  and for block comments.
-/
import Loxeme.Proofs.Parts

namespace Loxeme

/-! ## 1. Pieces that have a body -/

/-- What can stand around a body. -/
inductive Enclosure where
  | quotes
  | comment
  deriving DecidableEq, Repr

namespace Enclosure

/-- The piece with a given body. -/
def piece : Enclosure → Text → Piece
  | quotes, b => ⟨.string, '"' :: b ++ ['"']⟩
  | comment, b => ⟨.blockComment, '/' :: '*' :: (b ++ Piece.closing)⟩

/-- The body does not end the piece by itself. -/
def Admits : Enclosure → Text → Prop
  | quotes, b => '"' ∉ b
  | comment, b => Piece.Unclosed b

/-- The character that the piece begins with. -/
def opener : Enclosure → Char
  | quotes => '"'
  | comment => '/'

end Enclosure

/-- A star behind a body closes nothing. -/
theorem Piece.unclosed_concat {b : Text} (h : Unclosed b) : Unclosed (b ++ ['*']) := by
  induction b with
  | nil => unfold Unclosed; decide
  | cons c b ih =>
    obtain ⟨hc, hb⟩ := unclosed_cons.mp h
    refine unclosed_cons.mpr ⟨?_, ih hb⟩
    rintro ⟨rfl, hslash⟩
    cases b with
    | nil => exact absurd hslash (by decide)
    | cons d b => exact hc ⟨rfl, hslash⟩

namespace Enclosure

variable {e : Enclosure} {b : Text}

theorem opener_ne_point (e : Enclosure) : e.opener ≠ '.' := by cases e <;> decide

theorem exists_text_piece (e : Enclosure) (b : Text) :
    ∃ w, (e.piece b).text = e.opener :: w := by
  cases e <;> exact ⟨_, rfl⟩

@[simp] theorem newlines_piece (e : Enclosure) (b : Text) :
    (e.piece b).text.newlines = b.newlines := by
  cases e <;> simp [piece, Piece.closing]

@[simp] theorem diagnosticsOf_event?_piece (e : Enclosure) (b : Text) (line : Int) :
    diagnosticsOf ((e.piece b).event? line).toList = [] := by
  cases e <;> rfl

/-- **With a body that it admits, a piece ends at its own end**, whatever follows. -/
theorem fits_piece (h : e.Admits b) (after : Text) : (e.piece b).Fits after := by
  cases e with
  | quotes => exact ⟨.string h, trivial⟩
  | comment => exact ⟨.blockComment (Piece.unclosed_concat h), trivial⟩

/-- Any other body would have ended the piece before. -/
theorem admits_of_shaped {p : Piece} (hp : p.Shaped) (h : p.text = (e.piece b).text) :
    e.Admits b := by
  obtain ⟨c, rest, htext, hfirst⟩ := Piece.first_of_fits hp.fits_nil
  rw [List.append_nil, h] at htext
  cases e with
  | quotes =>
    obtain ⟨rfl, rfl⟩ := List.cons.inj htext
    intro hb
    obtain ⟨b₁, b₂, rfl, hb₁⟩ := List.eq_append_cons_of_mem hb
    rw [List.append_eq, List.append_assoc, List.cons_append, Piece.first_quote,
      Piece.afterQuote_string hb₁] at hfirst
    exact absurd (Prod.mk.inj hfirst).2 (by simp)
  | comment =>
    obtain ⟨rfl, rfl⟩ := List.cons.inj htext
    refine Piece.splitClose_eq_none_iff.mp ?_
    rw [Option.eq_none_iff_forall_ne_some]
    rintro ⟨body, after⟩ hb
    obtain rfl := Piece.append_of_splitClose hb
    obtain ⟨b₁, rfl, hb₁⟩ := Piece.exists_of_splitClose hb
    rw [List.append_assoc, Piece.first_blockComment hb₁] at hfirst
    exact absurd (Prod.mk.inj hfirst).2 (by simp [Piece.closing])

theorem eq_piece_of_text {p : Piece} (hp : p.Shaped) (h : p.text = (e.piece b).text) :
    p = e.piece b :=
  hp.eq_of_text (fits_piece (admits_of_shaped hp h) []).1 h

end Enclosure

/-! ## 2. Replacing a piece -/

section Replacing

variable {t w w' : Text} {c : Char}

theorem StopsAt.append_cons {f : Char → Bool} (h : StopsAt f (t ++ c :: w)) :
    StopsAt f (t ++ c :: w') := by
  refine h.congr ?_
  cases t <;> rfl

/-- Whether a point and a digit come first is settled before the end of a character that is no
point. -/
theorem Piece.isFraction_append_cons (hc : c ≠ '.') (h : isFraction (t ++ c :: w) = false) :
    isFraction (t ++ c :: w') = false := by
  cases t with
  | nil => exact isFraction_cons_eq_false.mpr fun hpoint => absurd hpoint hc
  | cons d t =>
    refine isFraction_cons_eq_false.mpr fun hd => ?_
    exact (isFraction_cons_eq_false.mp h hd).append_cons

namespace Piece

/-- **A piece in a cut can be replaced** by another that begins with the same character and fits
there. -/
theorem Proper.replace {ps qs : List Piece} {p p' : Piece} (h : Proper (ps ++ p :: qs))
    (hp : p.text = c :: w) (hp' : p'.text = c :: w') (hc : c ≠ '.')
    (hfits : p'.Fits (qs.map text).flatten) : Proper (ps ++ p' :: qs) := by
  induction ps with
  | nil => exact ⟨hfits, h.2⟩
  | cons q ps ih =>
    have htext : ∀ r : Piece, ((ps ++ r :: qs).map text).flatten =
        (ps.map text).flatten ++ (r.text ++ (qs.map text).flatten) := by simp
    have hstops : q.Stops ((ps ++ p :: qs).map text).flatten := h.1.2
    have hstops' : q.Stops ((ps ++ p' :: qs).map text).flatten := by
      rw [htext, hp] at hstops
      rw [htext, hp']
      exact hstops.imp (·.append_cons) (isFraction_append_cons hc)
    exact ⟨⟨h.1.1, hstops'⟩, ih h.2⟩

end Piece
end Replacing

/-- The source with another text in the place of a span. -/
def Span.replaceIn (u : Span) (source t : Text) : Text :=
  source.take u.start ++ t ++ source.drop u.stop

/-- **A step and its piece.**  The steps before it are those of the pieces before. -/
theorem exists_cut_of_trace {source : Text} {us vs : List Span} {u : Span}
    (h : (Scanner.ofSource source).trace = us ++ u :: vs) :
    ∃ before p after, Piece.Proper (before ++ p :: after) ∧ us = Span.layOut 0 1 before ∧
      u.textIn source = p.text ∧
      source = (before.map Piece.text).flatten ++ (p.text ++ (after.map Piece.text).flatten) ∧
      ∀ t : Text, u.replaceIn source t =
        (before.map Piece.text).flatten ++ (t ++ (after.map Piece.text).flatten) := by
  rw [trace_ofSource] at h
  obtain ⟨before, p, after, hpieces, rfl, rfl⟩ := Span.exists_of_layOut_eq h
  have hsource : source =
      (before.map Piece.text).flatten ++ p.text ++ (after.map Piece.text).flatten := by
    rw [← flatten_text_pieces source, hpieces]
    simp
  rw [Nat.zero_add, hsource]
  refine ⟨before, p, after, hpieces ▸ proper_pieces source, rfl, Span.textIn_ofPiece,
    List.append_assoc _ _ _, ?_⟩
  intro t
  rw [Span.replaceIn, Span.take_start_ofPiece, Span.drop_stop_ofPiece, List.append_assoc]

/-! ## 3. Before and behind a place -/

/-- What a scan gives that starts with given pieces: what the steps give that read them, and then
what a scan of the rest gives. -/
theorem startingOn_layOut {ps qs : List Piece} (h : Piece.Proper (ps ++ qs)) (offset : Nat)
    (line : Int) :
    let after := (qs.map Piece.text).flatten
    let scan := Scan.startingOn line ((ps.map Piece.text).flatten ++ after)
    let rest := Scan.startingOn (line + Text.newlines (ps.map Piece.text).flatten) after
    scan.tokens = (Span.layOut offset line ps).flatMap Span.tokens ++ rest.tokens ∧
      scan.diagnostics = (Span.layOut offset line ps).flatMap Span.diagnostics ++
        rest.diagnostics := by
  intro after
  induction ps generalizing offset line with
  | nil => simp [Span.layOut]
  | cons p ps ih =>
    have hfits : p.Fits ((ps.map Piece.text).flatten ++ after) := by
      have hfits' : p.Fits ((ps ++ qs).map Piece.text).flatten := h.1
      rwa [List.map_append, List.flatten_append] at hfits'
    obtain ⟨htokens, hevents⟩ := startingOn_append line hfits
    obtain ⟨ihtokens, ihdiagnostics⟩ := ih h.2 (offset + p.text.length) (line + p.text.newlines)
    have hline : line + p.text.newlines + Text.newlines (ps.map Piece.text).flatten =
        line + Text.newlines ((p :: ps).map Piece.text).flatten := by
      rw [List.map_cons, List.flatten_cons, Text.newlines_append]
      omega
    rw [hline] at ihtokens ihdiagnostics
    dsimp only
    rw [Scan.diagnostics, Span.layOut, List.flatMap_cons, List.flatMap_cons, List.append_assoc,
      List.append_assoc, ← ihtokens, ← ihdiagnostics, List.map_cons, List.flatten_cons,
      List.append_assoc, htokens, hevents, diagnosticsOf_append]
    exact ⟨rfl, rfl⟩

/-- What a scan gives around a piece with a body. -/
theorem startingOn_around {e : Enclosure} {b : Text} {ps qs : List Piece}
    (h : Piece.Proper (ps ++ e.piece b :: qs)) (hb : e.Admits b) (offset : Nat) (line : Int) :
    let after := (qs.map Piece.text).flatten
    let scan := Scan.startingOn line ((ps.map Piece.text).flatten ++ ((e.piece b).text ++ after))
    let behind := line + Text.newlines (ps.map Piece.text).flatten + b.newlines
    let rest := Scan.startingOn behind after
    scan.tokens = (Span.layOut offset line ps).flatMap Span.tokens ++
        (((e.piece b).token? behind).toList ++ rest.tokens) ∧
      scan.diagnostics = (Span.layOut offset line ps).flatMap Span.diagnostics ++
        rest.diagnostics := by
  intro after scan behind rest
  obtain ⟨htokens, hdiagnostics⟩ := startingOn_layOut h offset line
  obtain ⟨htokens', hevents'⟩ := startingOn_append
    (line + Text.newlines (ps.map Piece.text).flatten) (Enclosure.fits_piece hb after)
  rw [Enclosure.newlines_piece] at htokens' hevents'
  have hdiagnostics' := congrArg diagnosticsOf hevents'
  rw [diagnosticsOf_append, Enclosure.diagnosticsOf_event?_piece, List.nil_append]
    at hdiagnostics'
  exact ⟨htokens.trans (congrArg _ htokens'), hdiagnostics.trans (congrArg _ hdiagnostics')⟩

/-- **Another body in the place of a body.**  The steps before it are the same, and what comes
behind it is the same on other lines. -/
theorem scan_replaceBody {source : Text} {us vs : List Span} {u : Span} {e : Enclosure}
    {b b' : Text} (h : (Scanner.ofSource source).trace = us ++ u :: vs)
    (hu : u.textIn source = (e.piece b).text) (hb' : e.Admits b') :
    let k : Int := b'.newlines - b.newlines
    let scan := Scan.ofSource source
    let scan' := Scan.ofSource (u.replaceIn source (e.piece b').text)
    ∃ line ts ds,
      scan.tokens = us.flatMap Span.tokens ++ (((e.piece b).token? line).toList ++ ts) ∧
        scan'.tokens = us.flatMap Span.tokens ++
          (((e.piece b').token? (line + k)).toList ++ ts.map (Token.moved k)) ∧
        scan.diagnostics = us.flatMap Span.diagnostics ++ ds ∧
        scan'.diagnostics = us.flatMap Span.diagnostics ++ ds.map (Diagnostic.moved k) := by
  intro k scan scan'
  obtain ⟨before, p, after, hproper, rfl, htext, hsource, hreplace⟩ := exists_cut_of_trace h
  rw [hu] at htext
  obtain rfl := Enclosure.eq_piece_of_text hproper.fits.1 htext.symm
  obtain ⟨w, hw⟩ := e.exists_text_piece b
  obtain ⟨w', hw'⟩ := e.exists_text_piece b'
  have hproper' : Piece.Proper (before ++ e.piece b' :: after) :=
    hproper.replace hw hw' e.opener_ne_point (Enclosure.fits_piece hb' _)
  obtain ⟨htokens, hdiagnostics⟩ :=
    startingOn_around hproper (Enclosure.admits_of_shaped hproper.fits.1 rfl) 0 1
  obtain ⟨htokens', hdiagnostics'⟩ := startingOn_around hproper' hb' 0 1
  rw [← hsource] at htokens hdiagnostics
  rw [← hreplace] at htokens' hdiagnostics'
  -- behind the new body everything stands on lines that are `k` further on
  have hline : 1 + Text.newlines (before.map Piece.text).flatten + (b'.newlines : Int) =
      1 + Text.newlines (before.map Piece.text).flatten + b.newlines + k := by
    omega
  rw [hline, startingOn_add] at htokens' hdiagnostics'
  rw [Scan.diagnostics_moved] at hdiagnostics'
  exact ⟨_, _, _, htokens, htokens', hdiagnostics, hdiagnostics'⟩

/-! ## 4. The law -/

/-- **Bodies influence nothing else.**  If a step reads a string, its body can be any text without
a quote: another body is in the token of the string, and the lines from there on move by the
newlines that come or go.  If it reads a block comment, its body can be any text without a `*/`,
and the lines are all that another body changes. -/
theorem scan_replaceIn {source : Text} {us vs : List Span} {u : Span}
    (h : (Scanner.ofSource source).trace = us ++ u :: vs) (b b' : Text) :
    let k : Int := b'.newlines - b.newlines
    let earlier := us.flatMap Span.tokens
    let reported := us.flatMap Span.diagnostics
    let scan := Scan.ofSource source
    (u.textIn source = '"' :: b ++ ['"'] → '"' ∉ b' →
      let scan' := Scan.ofSource (u.replaceIn source ('"' :: b' ++ ['"']))
      ∃ line ts ds,
        scan.tokens = earlier ++ ⟨.string, '"' :: b ++ ['"'], some (.text b), line⟩ :: ts ∧
        scan'.tokens = earlier ++
          ⟨.string, '"' :: b' ++ ['"'], some (.text b'), line + k⟩ :: ts.map (Token.moved k) ∧
        scan.diagnostics = reported ++ ds ∧
        scan'.diagnostics = reported ++ ds.map (Diagnostic.moved k)) ∧
    (u.textIn source = '/' :: '*' :: (b ++ Piece.closing) → Piece.Unclosed b' →
      let scan' := Scan.ofSource (u.replaceIn source ('/' :: '*' :: (b' ++ Piece.closing)))
      ∃ ts ds,
        scan.tokens = earlier ++ ts ∧
        scan'.tokens = earlier ++ ts.map (Token.moved k) ∧
        scan.diagnostics = reported ++ ds ∧
        scan'.diagnostics = reported ++ ds.map (Diagnostic.moved k)) := by
  intro k earlier reported scan
  constructor
  · intro hu hb' scan'
    obtain ⟨line, ts, ds, htokens, htokens', hdiagnostics⟩ :=
      scan_replaceBody (e := .quotes) h hu hb'
    rw [Enclosure.piece, Piece.token?, Piece.stringBody_quoted] at htokens htokens'
    exact ⟨line, ts, ds, htokens, htokens', hdiagnostics⟩
  · intro hu hb' scan'
    obtain ⟨_, ts, ds, hscans⟩ := scan_replaceBody (e := .comment) h hu hb'
    exact ⟨ts, ds, hscans⟩

/-- A string that begins to look like a comment, and a comment with a quote in it and a star at its
end.  Both take one line more than before. -/
theorem scan_replaceIn_mixed :
    let source := "\"a\"/*b*/#".toList
    let s := Span.ofPiece 0 1 ⟨.string, "\"a\"".toList⟩
    let c := Span.ofPiece 3 1 ⟨.blockComment, "/*b*/".toList⟩
    let x := Span.ofPiece 8 1 ⟨.unexpected, ['#']⟩
    let scan := Scan.ofSource (s.replaceIn source ('"' :: "/*\n".toList ++ ['"']))
    let scan' := Scan.ofSource (c.replaceIn source ('/' :: '*' :: ("\"\n*".toList ++ Piece.closing)))
    (Scanner.ofSource source).trace = [] ++ s :: [c, x] ∧
      (Scanner.ofSource source).trace = [s] ++ c :: [x] ∧
      s.textIn source = '"' :: ['a'] ++ ['"'] ∧ '"' ∉ "/*\n".toList ∧
      c.textIn source = '/' :: '*' :: (['b'] ++ Piece.closing) ∧
      Piece.Unclosed "\"\n*".toList ∧
      scan.tokens = [⟨.string, "\"/*\n\"".toList, some (.text "/*\n".toList), 2⟩, Token.endOn 2] ∧
      scan.diagnostics = [.ofFault 2 (.unexpected '#')] ∧
      scan'.tokens = [⟨.string, "\"a\"".toList, some (.text ['a']), 1⟩, Token.endOn 2] ∧
      scan'.diagnostics = [.ofFault 2 (.unexpected '#')] := by
  intro source s c x scan scan'
  have hs : (Scanner.ofSource source).trace = [] ++ s :: [c, x] := by decide +kernel
  have hc : (Scanner.ofSource source).trace = [s] ++ c :: [x] := hs
  have hstring : s.textIn source = '"' :: ['a'] ++ ['"'] := by decide
  have hcomment : c.textIn source = '/' :: '*' :: (['b'] ++ Piece.closing) := by decide
  have hquote : '"' ∉ "/*\n".toList := by decide
  have hunclosed : Piece.Unclosed "\"\n*".toList := by unfold Piece.Unclosed; decide
  have htokens : (Scan.ofSource source).tokens =
      [⟨.string, "\"a\"".toList, some (.text ['a']), 1⟩, Token.endOn 1] := by decide +kernel
  have hdiagnostics : (Scan.ofSource source).diagnostics = [.ofFault 1 (.unexpected '#')] := by
    decide +kernel
  refine ⟨hs, hc, hstring, hquote, hcomment, hunclosed, ?_⟩
  obtain ⟨line, ts, ds, hscan, hscan', hreport, hreport'⟩ :=
    (scan_replaceIn hs ['a'] "/*\n".toList).1 hstring hquote
  obtain ⟨us, es, hrest, hrest', hsaid, hsaid'⟩ :=
    (scan_replaceIn hc ['b'] "\"\n*".toList).2 hcomment hunclosed
  rw [htokens] at hscan hrest
  rw [hdiagnostics] at hreport hsaid
  obtain ⟨hline, rfl⟩ := List.cons.inj hscan
  obtain rfl : 1 = line := congrArg Token.line hline
  obtain rfl := (List.cons.inj hrest).2
  obtain rfl : [_] = ds := hreport
  obtain rfl : [_] = es := hsaid
  exact ⟨hscan', hreport', hrest', hsaid'⟩

end Loxeme
