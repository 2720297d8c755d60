/-
# Line ends

Some write a carriage return before every newline.  This module writes them and compares the two
scans: a text in a lexeme or a string has them too, and nothing else has changed.

Most pieces are read as before, since a carriage return where there was a newline makes nothing
longer.  Two are not.  A blank that is a newline becomes two blanks, and a line comment takes the
carriage return behind it, so that the two sources are cut at other places.

* `Text.crlf` writes the carriage returns, and `newlines_crlf` says that no line comes or goes.
* `Piece.Fits.crlf`: a piece that is neither a blank nor a line comment is read as before.
* `startingOn_crlf_append` compares the two scans at one piece, `startingOn_crlf` along all.
* `scan_crlf` is the law for a source.
-/
import Loxeme.Proofs.RoundTrip

namespace Loxeme

/-! ## 1. Writing carriage returns -/

/-- The text with a carriage return before every newline. -/
def Text.crlf (t : Text) : Text := t.flatMap fun c => if c = '\n' then ['\r', '\n'] else [c]

/-- The literal with carriage returns in it, if it is a text. -/
def Literal.crlf : Literal → Literal
  | text t => text t.crlf
  | number x => number x

/-- The token with carriage returns in its lexeme and its literal. -/
def Token.crlf (t : Token) : Token :=
  { t with lexeme := t.lexeme.crlf, literal := t.literal.map Literal.crlf }

/-- The piece with carriage returns in its text. -/
def Piece.crlf (p : Piece) : Piece := ⟨p.role, p.text.crlf⟩

namespace Text

@[simp] theorem crlf_nil : crlf [] = [] := rfl

theorem crlf_newline (t : Text) : crlf ('\n' :: t) = '\r' :: '\n' :: crlf t := rfl

theorem crlf_cons {c : Char} (hc : c ≠ '\n') (t : Text) : crlf (c :: t) = c :: crlf t := by
  simp [crlf, hc]

@[simp] theorem crlf_append (t u : Text) : crlf (t ++ u) = crlf t ++ crlf u := by
  simp [crlf]

theorem crlf_of_notMem {t : Text} (h : '\n' ∉ t) : crlf t = t := by
  induction t with
  | nil => rfl
  | cons c t ih =>
    simp only [List.mem_cons, not_or] at h
    rw [crlf_cons (Ne.symm h.1), ih h.2]

/-- What was not there before is carriage returns. -/
theorem mem_of_mem_crlf {t : Text} {c : Char} (hc : c ≠ '\r') (h : c ∈ crlf t) : c ∈ t := by
  obtain ⟨d, hd, hcd⟩ := List.mem_flatMap.mp h
  split at hcd
  · rename_i hn
    simp only [List.mem_cons, hc, List.not_mem_nil, or_false, false_or] at hcd
    rwa [hcd, ← hn]
  · rwa [List.mem_singleton.mp hcd]

@[simp] theorem newlines_crlf (t : Text) : t.crlf.newlines = t.newlines := by
  induction t with
  | nil => rfl
  | cons c t ih =>
    by_cases hc : c = '\n'
    · subst hc
      simp [crlf_newline, ih]
    · simp [crlf_cons hc, hc, ih]

theorem head?_crlf (t : Text) :
    t.crlf.head? = t.head?.map fun c => if c = '\n' then '\r' else c := by
  cases t with
  | nil => rfl
  | cons c t =>
    by_cases hc : c = '\n'
    · subst hc
      rfl
    · simp [crlf_cons hc, hc]

/-- Blanks stay blanks. -/
theorem blank_crlf {t : Text} (h : t.Blank) : t.crlf.Blank := by
  intro c hc
  by_cases hr : c = '\r'
  · simp [hr]
  · exact h c (mem_of_mem_crlf hr hc)

end Text

/-! ## 2. A carriage return makes nothing longer -/

section Stopping

variable {t : Text}

theorem StopsAt.crlf {f : Char → Bool} (h : StopsAt f t) (hf : f '\r' = false) :
    StopsAt f t.crlf := by
  intro c hc
  rw [Text.head?_crlf, Option.mem_def, Option.map_eq_some_iff] at hc
  obtain ⟨d, hd, rfl⟩ := hc
  split
  · exact hf
  · exact h d hd

theorem Piece.isFraction_crlf (h : isFraction t = false) : isFraction t.crlf = false := by
  cases t with
  | nil => rfl
  | cons c t =>
    by_cases hc : c = '\n'
    · subst hc
      rfl
    · rw [Text.crlf_cons hc, isFraction_cons_eq_false]
      exact fun hpoint => (isFraction_cons_eq_false.mp h hpoint).crlf (by decide)

/-- A newline is no part of `*/`, so none comes of what is written before one. -/
theorem Piece.unclosed_crlf (h : Unclosed t) : Unclosed t.crlf := by
  induction t with
  | nil => exact h
  | cons c t ih =>
    obtain ⟨hc, ht⟩ := unclosed_cons.mp h
    by_cases hn : c = '\n'
    · subst hn
      exact unclosed_cons.mpr ⟨by simp, unclosed_cons.mpr ⟨by simp, ih ht⟩⟩
    · rw [Text.crlf_cons hn]
      refine unclosed_cons.mpr ⟨?_, ih ht⟩
      rintro ⟨rfl, hslash⟩
      rw [Text.head?_crlf, Option.map_eq_some_iff] at hslash
      obtain ⟨d, hd, hd'⟩ := hslash
      split at hd'
      · exact absurd hd' (by decide)
      · exact hc ⟨rfl, hd' ▸ hd⟩

end Stopping

/-! ## 3. Pieces with carriage returns -/

/-- The roles whose texts can hold newlines. -/
def Role.isMultiline : Role → Bool
  | .string | .openString | .blank | .blockComment | .openComment => true
  | _ => false

namespace Piece

variable {p : Piece} {after : Text}

theorem Shaped.newline_notMem (h : p.Shaped) (hp : p.role.isMultiline = false) :
    '\n' ∉ p.text := by
  have hdigits : ∀ {ds : Text}, (∀ d ∈ ds, d.isDigit = true) → '\n' ∉ ds :=
    fun hds hnewline => absurd (hds _ hnewline) (by decide)
  cases h with
  | operator o => cases o <;> decide
  | word hc ht =>
    rw [List.mem_cons, not_or]
    refine ⟨?_, fun hnewline => absurd (ht _ hnewline) (by decide)⟩
    rintro rfl
    exact absurd hc (by decide)
  | whole _ hds => exact hdigits hds
  | fraction _ hds _ hfs => simp [hdigits hds, hdigits hfs]
  | lineComment hb => simp [hb]
  | unexpected hc =>
    rw [List.mem_singleton]
    rintro rfl
    exact absurd hc (by decide)
  | _ => exact absurd hp (by simp [Role.isMultiline])

theorem Shaped.crlf_eq (h : p.Shaped) (hp : p.role.isMultiline = false) : p.crlf = p := by
  rw [Piece.crlf, Text.crlf_of_notMem (h.newline_notMem hp)]

theorem crlf_quoted (b : Text) : Text.crlf ('"' :: b ++ ['"']) = '"' :: b.crlf ++ ['"'] := by
  rw [Text.crlf_append]
  rfl

theorem Shaped.crlf (h : p.Shaped) (hblank : p.role ≠ .blank) : p.crlf.Shaped := by
  by_cases hp : p.role.isMultiline = true
  · cases h with
    | @string b hb =>
      rw [Piece.crlf, crlf_quoted]
      exact .string fun hquote => hb (Text.mem_of_mem_crlf (by decide) hquote)
    | openString hb => exact .openString fun hquote => hb (Text.mem_of_mem_crlf (by decide) hquote)
    | @blockComment b hb =>
      have htext : Text.crlf ('/' :: '*' :: (b ++ closing)) =
          '/' :: '*' :: (b.crlf ++ closing) := by
        rw [← Text.crlf_of_notMem (t := closing) (by decide), ← Text.crlf_append]
        rfl
      rw [Piece.crlf, htext]
      refine .blockComment ?_
      rw [← Text.crlf_of_notMem (t := ['*']) (by decide), ← Text.crlf_append]
      exact unclosed_crlf hb
    | openComment hb => exact .openComment (unclosed_crlf hb)
    | blank => exact absurd rfl hblank
    | _ => exact absurd hp (by simp [Role.isMultiline])
  · rw [h.crlf_eq (by simpa using hp)]
    exact h

/-- **A piece that is neither a blank nor a line comment is read as before.** -/
theorem Fits.crlf (h : p.Fits after) (hblank : p.role ≠ .blank) (hline : p.role ≠ .lineComment) :
    p.crlf.Fits after.crlf := by
  refine ⟨h.1.crlf hblank, ?_⟩
  by_cases hopen : p.role = .openString ∨ p.role = .openComment
  · -- nothing is behind an open piece, and nothing comes there
    have hafter : after = [] := by
      have hstops := h.2
      rcases hopen with hopen | hopen
      · rwa [Stops, hopen] at hstops
      · rwa [Stops, hopen] at hstops
    rw [hafter]
    exact (h.1.crlf hblank).fits_nil.2
  · have hreturn : p.role.extendedBy '\r' = false := by
      obtain ⟨role, text⟩ := p
      cases role with
      | operator o => cases o <;> rfl
      | openString => exact absurd (Or.inl rfl) hopen
      | openComment => exact absurd (Or.inr rfl) hopen
      | lineComment => exact absurd rfl hline
      | _ => rfl
    obtain ⟨hone, hpoint⟩ := stops_iff.mp h.2
    refine stops_iff.mpr ⟨hone.crlf hreturn, fun hn => ?_⟩
    have hp : p.crlf = p := h.1.crlf_eq (by rw [show p.role = .number from hn]; rfl)
    rw [hp]
    exact (hpoint hn).imp_right isFraction_crlf

/-- The token of a piece has the carriage returns of the piece. -/
theorem Shaped.token?_crlf (h : p.Shaped) (line : Int) :
    p.crlf.token? line = (p.token? line).map Token.crlf := by
  by_cases hp : p.role.isMultiline = true
  · cases h with
    | @string b hb =>
      simp only [Piece.crlf, token?, crlf_quoted, stringBody_quoted, Option.map_some, Token.crlf,
        Literal.crlf]
    | openString | blockComment | openComment | blank => rfl
    | _ => exact absurd hp (by simp [Role.isMultiline])
  · have hp' : p.role.isMultiline = false := by simpa using hp
    have htext := Text.crlf_of_notMem (h.newline_notMem hp')
    rw [h.crlf_eq hp']
    obtain ⟨role, text⟩ := p
    cases role with
    | string => exact absurd hp' (by simp [Role.isMultiline])
    | operator | word | number => simp [token?, Token.crlf, Literal.crlf, htext]
    | _ => rfl

/-- What is reported about a piece does not tell of carriage returns. -/
theorem Shaped.diagnostics_crlf (h : p.Shaped) (line : Int) :
    diagnosticsOf (p.crlf.event? line).toList = diagnosticsOf (p.event? line).toList := by
  by_cases hp : p.role.isMultiline = true
  · obtain ⟨role, text⟩ := p
    cases role with
    | openString => simp [Piece.crlf, event?]
    | string | blockComment | openComment | blank => rfl
    | _ => exact absurd hp (by simp [Role.isMultiline])
  · rw [h.crlf_eq (by simpa using hp)]

end Piece

/-! ## 4. The two scans -/

section Scans

variable {p : Piece} {after : Text} (line : Int)

/-- A blank becomes blanks, and all of them leave nothing behind but the line. -/
theorem startingOn_crlf_blank {gap : Text} (after : Text) (h : gap.Blank) :
    (Scan.startingOn line (Text.crlf (gap ++ after))).tokens =
        (Scan.startingOn (line + gap.newlines) after.crlf).tokens ∧
      (Scan.startingOn line (Text.crlf (gap ++ after))).events =
        (Scan.startingOn (line + gap.newlines) after.crlf).events := by
  have hblank := startingOn_blank line after.crlf (Text.blank_crlf h)
  rwa [← Text.crlf_append, Text.newlines_crlf] at hblank

/-- A line comment leaves nothing behind. -/
theorem startingOn_lineComment {b after : Text} (hb : '\n' ∉ b) (hs : StopsAt (· ≠ '\n') after) :
    (Scan.startingOn line ('/' :: '/' :: b ++ after)).tokens =
        (Scan.startingOn line after).tokens ∧
      (Scan.startingOn line ('/' :: '/' :: b ++ after)).events =
        (Scan.startingOn line after).events := by
  have hnone : Text.newlines ('/' :: '/' :: b) = 0 := List.count_eq_zero.mpr (by simp [hb])
  have h := startingOn_append line (p := ⟨.lineComment, '/' :: '/' :: b⟩) ⟨.lineComment hb, hs⟩
  rwa [hnone, Int.natCast_zero, Int.add_zero] at h

/-- A line comment takes the carriage return behind it, which is missed by nobody. -/
theorem startingOn_crlf_lineComment {b : Text} (hb : '\n' ∉ b) (hs : StopsAt (· ≠ '\n') after) :
    (Scan.startingOn line (Text.crlf ('/' :: '/' :: b ++ after))).tokens =
        (Scan.startingOn line after.crlf).tokens ∧
      (Scan.startingOn line (Text.crlf ('/' :: '/' :: b ++ after))).events =
        (Scan.startingOn line after.crlf).events := by
  have htext : Text.crlf ('/' :: '/' :: b) = '/' :: '/' :: b := Text.crlf_of_notMem (by simp [hb])
  rw [Text.crlf_append, htext]
  cases after with
  | nil => exact startingOn_lineComment line hb (stopsAt_nil _)
  | cons c rest =>
    obtain rfl : c = '\n' := by simpa using stopsAt_cons.mp hs
    have hreturn : Text.Blank ['\r'] := blank_iff.mpr rfl
    have hreturned : '\n' ∉ b ++ ['\r'] := by simp [hb]
    have hstops : StopsAt (· ≠ '\n') ('\n' :: Text.crlf rest) := stopsAt_cons.mpr (by decide)
    have htaken := startingOn_lineComment line hreturned hstops
    have hskipped := startingOn_blank line ('\n' :: Text.crlf rest) hreturn
    simp only [Text.newlines_cons, Text.newlines_nil, List.cons_append, List.append_assoc,
      List.nil_append] at htaken hskipped
    simp only [Text.crlf_newline, List.cons_append, htaken, hskipped]
    simp

/-- **One piece.**  With carriage returns it amounts to what it amounted to, and then the rest is
scanned. -/
theorem startingOn_crlf_append (h : p.Fits after) :
    let rest := Scan.startingOn (line + p.text.newlines) after.crlf
    let scan := Scan.startingOn line (Text.crlf (p.text ++ after))
    scan.tokens = ((p.token? (line + p.text.newlines)).map Token.crlf).toList ++ rest.tokens ∧
      scan.diagnostics = diagnosticsOf (p.event? line).toList ++ rest.diagnostics := by
  intro rest scan
  by_cases hblank : p.role = .blank
  · obtain ⟨hp, -⟩ := h
    cases hp with
    | @blank c hc =>
      have hgap : Text.Blank [c] := blank_iff.mpr (by simp [hc])
      obtain ⟨htokens, hevents⟩ := startingOn_crlf_blank line after hgap
      exact ⟨htokens, congrArg diagnosticsOf hevents⟩
    | _ => exact absurd hblank (by simp)
  by_cases hcomment : p.role = .lineComment
  · obtain ⟨hp, hs⟩ := h
    cases hp with
    | @lineComment b hb =>
      obtain ⟨htokens, hevents⟩ := startingOn_crlf_lineComment line hb hs
      have hnone : Text.newlines ('/' :: '/' :: b) = 0 := List.count_eq_zero.mpr (by simp [hb])
      have hrest : rest = Scan.startingOn line after.crlf := by simp [rest, hnone]
      rw [hrest]
      exact ⟨htokens, congrArg diagnosticsOf hevents⟩
    | _ => exact absurd hcomment (by simp)
  · obtain ⟨htokens, hevents⟩ := startingOn_append line (h.crlf hblank hcomment)
    have hevents' := congrArg diagnosticsOf hevents
    rw [diagnosticsOf_append, h.1.diagnostics_crlf] at hevents'
    rw [h.1.token?_crlf] at htokens
    simp only [Piece.crlf, ← Text.crlf_append, Text.newlines_crlf] at htokens hevents'
    exact ⟨htokens, hevents'⟩

/-- **Along the pieces.**  Wherever a proper cut starts, carriage returns keep what it amounts
to. -/
theorem startingOn_crlf {ps : List Piece} (h : Piece.Proper ps) (line : Int) :
    let source : Text := (ps.map Piece.text).flatten
    let scan := Scan.startingOn line source
    let scan' := Scan.startingOn line source.crlf
    scan'.tokens = scan.tokens.map Token.crlf ∧ scan'.diagnostics = scan.diagnostics := by
  induction ps generalizing line with
  | nil =>
    intro source scan scan'
    have hend : scan.tokens = [Token.endOn line] := by
      simp [scan, source, Scan.startingOn, place]
    refine ⟨?_, rfl⟩
    rw [hend]
    exact hend
  | cons p ps ih =>
    obtain ⟨htokens, hevents⟩ := startingOn_append line h.1
    obtain ⟨htokens', hdiagnostics'⟩ := startingOn_crlf_append line h.1
    obtain ⟨ihtokens, ihdiagnostics⟩ := ih h.2 (line + p.text.newlines)
    have hdiagnostics := congrArg diagnosticsOf hevents
    rw [diagnosticsOf_append] at hdiagnostics
    dsimp only
    rw [List.map_cons, List.flatten_cons, htokens, htokens', hdiagnostics', ihtokens, ihdiagnostics,
      List.map_append, Option.toList_map]
    exact ⟨rfl, hdiagnostics.symm⟩

end Scans

/-! ## 5. The law -/

/-- **Line ends.**  With a carriage return before every newline a source has the same tokens, on
the same lines, with carriage returns in their lexemes and in the values of strings.  The same is
reported about it. -/
theorem scan_crlf (source : Text) :
    let scan := Scan.ofSource source
    let scan' := Scan.ofSource source.crlf
    scan'.tokens = scan.tokens.map Token.crlf ∧ scan'.diagnostics = scan.diagnostics := by
  have h := startingOn_crlf (proper_pieces source) 1
  rwa [flatten_text_pieces] at h

end Loxeme
