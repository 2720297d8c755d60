/-
# Line numbers

A line ends at a newline and nowhere else, and every newline of a source is counted once,
whatever kind of piece it stands in.

* `token_line`: a token belongs to the line on which its lexeme ends.
* `diagnostic_line`: an unexpected character belongs to its own line, and a string that is
  left open to the last line of the source.
* `pairwise_lines`: so line numbers never decrease along a list that is read off the steps of
  a scan in order.
* `scan_lines_exact` puts these together for a whole scan.
-/
import Loxeme.Proofs.Trace

namespace Loxeme

/-! ## 1. Lines along a source -/

theorem Text.newlines_take_le (t : Text) {m n : Nat} (h : m ≤ n) :
    newlines (t.take m) ≤ newlines (t.take n) :=
  (List.take_sublist_take_left h).count_le '\n'

theorem Text.lineAt_mono (source : Text) {m n : Nat} (h : m ≤ n) :
    source.lineAt m ≤ source.lineAt n := by
  have := source.newlines_take_le h
  rw [lineAt, lineAt]
  omega

/-- **Line numbers never decrease** along what the steps of a scan add, if all that a step adds
belongs to the line on which it stops. -/
theorem pairwise_lines {α : Type} {source : Text} {lo hi : Nat} {us : List Span}
    (h : Span.Tiles lo hi us) (f : Span → List α) (line : α → Int)
    (hline : ∀ u ∈ us, ∀ x ∈ f u, line x = source.lineAt u.stop) :
    ((us.flatMap f).map line).Pairwise (· ≤ ·) := by
  rw [List.pairwise_map, List.pairwise_flatMap]
  constructor
  · intro u hu
    refine List.pairwise_of_forall_mem_list ?_
    intro x hx y hy
    exact Int.le_of_eq ((hline u hu x hx).trans (hline u hu y hy).symm)
  · refine h.pairwise.imp_of_mem ?_
    intro u v hu hv huv x hx y hy
    rw [hline u hu x hx, hline v hv y hy]
    have hv' := (h.bounds.2 v hv).2.1
    exact source.lineAt_mono (by omega)

/-! ## 2. The lines of a piece -/

namespace Piece

/-- A token holds the text of its piece and the line on which that ends. -/
theorem token_of_mem {p : Piece} {line : Int} {t : Token} (h : t ∈ p.token? line) :
    t.lexeme = p.text ∧ t.line = line ∧ t.kind ≠ .endOfSource := by
  obtain ⟨role, text⟩ := p
  cases role <;> simp only [token?, Option.mem_def, Option.some.injEq, reduceCtorEq] at h
  · subst h; exact ⟨rfl, rfl, by simp⟩
  · subst h
    refine ⟨rfl, rfl, ?_⟩
    rw [Kind.ofWord]
    split <;> simp
  · subst h; exact ⟨rfl, rfl, by simp⟩
  · subst h; exact ⟨rfl, rfl, by simp⟩

/-- What a piece reports: one character that is unexpected, on its line, or a string that is
left open by the end of the source. -/
theorem diagnostic_cases {p : Piece} {after : Text} (h : p.Fits after) {line : Int}
    {d : Diagnostic} (hd : d ∈ diagnosticsOf (p.event? line).toList) :
    (∃ c, c ≠ '\n' ∧ p.text = [c] ∧ d = .ofFault line (.unexpected c)) ∨
      (after = [] ∧ d = .ofFault (line + p.text.newlines) .unterminatedString) := by
  obtain ⟨hp, hs⟩ := h
  cases hp with
  | @openString b hb =>
    have heq : d = .ofFault (line + Text.newlines ('"' :: b)) .unterminatedString := by
      simpa [event?, diagnosticsOf, Event.diagnostic?] using hd
    exact Or.inr ⟨hs, heq⟩
  | @unexpected c hc =>
    have hline : c ≠ '\n' := by
      rintro rfl
      exact absurd hc (by decide)
    have heq : d = .ofFault line (.unexpected c) := by
      simpa [event?, diagnosticsOf, Event.diagnostic?] using hd
    exact Or.inl ⟨c, hline, rfl, heq⟩
  | _ => exact absurd hd (by simp [event?, diagnosticsOf, Event.diagnostic?])

end Piece

/-! ## 3. The lines of a scan -/

section Steps

variable {source : Text} {u : Span}

/-- **A token belongs to the line on which its lexeme ends.** -/
theorem token_line (hu : u ∈ (Scanner.ofSource source).trace) {t : Token} (ht : t ∈ u.tokens) :
    t.lexeme = u.textIn source ∧ t.line = source.lineAt u.stop := by
  obtain ⟨before, p, after, rfl, -, rfl⟩ := mem_trace hu
  obtain ⟨hlexeme, hline, -⟩ := Piece.token_of_mem (Option.mem_toList.mp ht)
  rw [Span.textIn_ofPiece, Span.lineAt_stop_ofPiece]
  exact ⟨hlexeme, hline⟩

/-- **A diagnostic belongs to the line of its character, or to the last line.** -/
theorem diagnostic_line (hu : u ∈ (Scanner.ofSource source).trace) {d : Diagnostic}
    (hd : d ∈ u.diagnostics) :
    (∃ c, c ≠ '\n' ∧ u.textIn source = [c] ∧
        d = .ofFault (source.lineAt u.start) (.unexpected c)) ∨
      (u.stop = source.length ∧ d = .ofFault (source.lineAt source.length) .unterminatedString) := by
  obtain ⟨before, p, after, rfl, hp, rfl⟩ := mem_trace hu
  rw [Span.textIn_ofPiece, Span.lineAt_start_ofPiece]
  rcases Piece.diagnostic_cases hp hd with h | ⟨rfl, h⟩
  · exact Or.inl h
  · refine Or.inr ⟨by simp [Span.ofPiece], ?_⟩
    have hstop := @Span.lineAt_stop_ofPiece before [] 0 p
    have hlen : (Span.ofPiece before.length 0 p).stop = (before ++ p.text ++ []).length := by
      simp [Span.ofPiece]
    rw [hlen] at hstop
    rw [hstop]
    exact h

/-- No newline stands in a character that is unexpected, so both kinds of diagnostics belong to
the line on which the step stops. -/
theorem diagnostic_line_stop (hu : u ∈ (Scanner.ofSource source).trace) {d : Diagnostic}
    (hd : d ∈ u.diagnostics) : d.line = source.lineAt u.stop := by
  rcases diagnostic_line hu hd with ⟨c, hc, htext, rfl⟩ | ⟨hstop, rfl⟩
  · obtain ⟨before, p, after, rfl, -, rfl⟩ := mem_trace hu
    rw [Span.textIn_ofPiece] at htext
    rw [Span.lineAt_start_ofPiece, Span.lineAt_stop_ofPiece, htext]
    simp [Diagnostic.ofFault, hc]
  · rw [hstop]
    rfl

end Steps

/-- **Line numbers are exact.**  Along the steps of a scan, which cover the source, a token
has the line of the end of its lexeme, an unexpected character the line of the character; a
string that is left open and the end token have the last line of the source.  So the lines of
the tokens, and those of the diagnostics, never decrease. -/
theorem scan_lines_exact (source : Text) :
    let units := (Scanner.ofSource source).trace
    let scan := Scan.ofSource source
    Span.Tiles 0 source.length units ∧
      scan.tokens = units.flatMap Span.tokens ++ [Token.endOn (source.lineAt source.length)] ∧
      scan.diagnostics = units.flatMap Span.diagnostics ∧
      (∀ u ∈ units, ∀ t ∈ u.tokens,
        t.lexeme = u.textIn source ∧ t.line = source.lineAt u.stop) ∧
      (∀ u ∈ units, ∀ d ∈ u.diagnostics,
        (∃ c, c ≠ '\n' ∧ u.textIn source = [c] ∧
            d = .ofFault (source.lineAt u.start) (.unexpected c)) ∨
          (u.stop = source.length ∧
            d = .ofFault (source.lineAt source.length) .unterminatedString)) ∧
      (scan.tokens.map Token.line).Pairwise (· ≤ ·) ∧
      (scan.diagnostics.map Diagnostic.line).Pairwise (· ≤ ·) := by
  have htiles := tiles_trace source
  have htokens : ∀ u ∈ (Scanner.ofSource source).trace, ∀ t ∈ u.tokens,
      t.line = source.lineAt u.stop := by
    intro u hu t ht
    exact (token_line hu ht).2
  have hdiagnostics : ∀ u ∈ (Scanner.ofSource source).trace, ∀ d ∈ u.diagnostics,
      d.line = source.lineAt u.stop := by
    intro u hu d hd
    exact diagnostic_line_stop hu hd
  refine ⟨htiles, tokens_ofSource source, diagnostics_ofSource source, ?_, ?_, ?_, ?_⟩
  · intro u hu t ht
    exact token_line hu ht
  · intro u hu d hd
    exact diagnostic_line hu hd
  · rw [tokens_ofSource, List.map_append, List.pairwise_append]
    refine ⟨pairwise_lines htiles Span.tokens Token.line htokens, by simp, ?_⟩
    intro l hl l' hl'
    obtain ⟨t, ht, rfl⟩ := List.mem_map.mp hl
    obtain ⟨u, hu, htu⟩ := List.mem_flatMap.mp ht
    obtain rfl : l' = source.lineAt source.length := by simpa [Token.endOn] using hl'
    rw [htokens u hu t htu]
    exact source.lineAt_mono (htiles.bounds.2 u hu).2.2
  · rw [diagnostics_ofSource]
    exact pairwise_lines htiles Span.diagnostics Diagnostic.line hdiagnostics

end Loxeme
