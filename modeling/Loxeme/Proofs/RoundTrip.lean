/-
# Writing and scanning

Tokens are written as their lexemes with blanks between them, and a scan reads them back.
What carries the argument is that a token's piece stops at a blank: whatever a lexeme holds,
comment openers and line breaks included, the scan leaves it at its own end.

* `wellFormed_iff`: the tokens that can be written are the tokens of shaped pieces.
* `startingOn_append`: a scan of a piece and what follows is the piece and a scan of the rest.
* `startingOn_written`: a scan reads back what was written, on whatever line it starts.
* `scan_written` says so for whole sources, and for the tokens of any scan.
-/
import Loxeme.Proofs.LongestMatch
import Loxeme.Proofs.LineNumbers

namespace Loxeme

/-! ## 1. What can be written -/

namespace Token

/-- What a token is, wherever it stands. -/
def content (t : Token) : Kind × Text × Option Literal := (t.kind, t.lexeme, t.literal)

/-- A token that can be written, on any line. -/
inductive WellFormed : Token → Prop
  | operator (o : Operator) (line : Int) : WellFormed ⟨.operator o, o.spelling, none, line⟩
  | keyword (k : Keyword) (line : Int) : WellFormed ⟨.keyword k, k.spelling, none, line⟩
  | identifier {c : Char} {t : Text} (hc : c.isAlpha = true ∨ c = '_')
      (ht : ∀ d ∈ t, d.isAlpha = true ∨ d.isDigit = true ∨ d = '_')
      (hk : ∀ k : Keyword, k.spelling ≠ c :: t) (line : Int) :
      WellFormed ⟨.identifier, c :: t, none, line⟩
  | string {b : Text} (hb : '"' ∉ b) (line : Int) :
      WellFormed ⟨.string, '"' :: b ++ ['"'], some (.text b), line⟩
  | whole {ds : Text} (hne : ds ≠ []) (hds : ∀ d ∈ ds, d.isDigit = true) (line : Int) :
      WellFormed ⟨.number, ds, some (.number (Decimal.ofNumeral ds).round), line⟩
  | fraction {ds fs : Text} (hne : ds ≠ []) (hds : ∀ d ∈ ds, d.isDigit = true) (hnf : fs ≠ [])
      (hfs : ∀ d ∈ fs, d.isDigit = true) (line : Int) :
      WellFormed ⟨.number, ds ++ '.' :: fs,
        some (.number (Decimal.ofNumeral (ds ++ '.' :: fs)).round), line⟩

end Token

/-- A text that only separates. -/
def Text.Blank (t : Text) : Prop := ∀ c ∈ t, c = ' ' ∨ c = '\t' ∨ c = '\r' ∨ c = '\n'

/-- Tokens written one after the other, each with the text that follows it. -/
def written (ts : List (Token × Text)) : Text := ts.flatMap fun (t, gap) => t.lexeme ++ gap

/-! ## 2. Tokens and pieces -/

theorem blank_iff {t : Text} : t.Blank ↔ t.all isBlank = true := by
  rw [List.all_eq_true]
  constructor
  · intro h c hc
    rcases h c hc with rfl | rfl | rfl | rfl <;> rfl
  · intro h c hc
    exact Piece.isBlank_cases (h c hc)

/-- Keywords are words. -/
theorem Keyword.exists_word (k : Keyword) :
    ∃ c t, k.spelling = c :: t ∧ isWordStart c = true ∧ ∀ d ∈ t, isWordPart d = true := by
  cases k <;> exact ⟨_, _, rfl, rfl, List.all_eq_true.mp rfl⟩

namespace Piece

section Tokens

variable {p : Piece} {t : Token} {line : Int}

/-- The line is the only thing in a token that depends on where its piece stands. -/
theorem content_token? (h : p.token? line = some t) (line' : Int) :
    ∃ t', p.token? line' = some t' ∧ t'.content = t.content := by
  obtain ⟨role, text⟩ := p
  cases role <;> simp only [token?, Option.some.injEq, reduceCtorEq] at h
  all_goals
    subst h
    exact ⟨_, rfl, rfl⟩

/-- Nothing is said about a piece that is a token. -/
theorem event?_of_token? (h : p.token? line = some t) (line' : Int) : p.event? line' = none := by
  obtain ⟨role, text⟩ := p
  cases role <;> simp only [token?, reduceCtorEq] at h <;> rfl

end Tokens

end Piece

/-- **The tokens that can be written are those of shaped pieces.** -/
theorem wellFormed_iff {t : Token} :
    t.WellFormed ↔ ∃ (p : Piece) (line : Int), p.Shaped ∧ p.token? line = some t := by
  constructor
  · intro h
    cases h with
    | operator o line => exact ⟨_, line, .operator o, rfl⟩
    | keyword k line =>
      obtain ⟨c, t, hspell, hc, ht⟩ := k.exists_word
      refine ⟨⟨.word, c :: t⟩, line, .word hc ht, ?_⟩
      rw [Piece.token?, Kind.ofWord, ← hspell, Keyword.ofSpelling?_spelling]
    | @identifier c t hc ht hk line =>
      have hnone : Keyword.ofSpelling? (c :: t) = none := by
        rw [Option.eq_none_iff_forall_ne_some]
        intro k h
        exact hk k (Keyword.ofSpelling?_eq_some_iff.mp h)
      refine ⟨⟨.word, c :: t⟩, line, .word (isWordStart_iff.mpr hc)
        (fun d hd => isWordPart_iff_or.mpr (ht d hd)), ?_⟩
      rw [Piece.token?, Kind.ofWord, hnone]
    | string hb line =>
      refine ⟨_, line, .string hb, ?_⟩
      rw [Piece.token?, Piece.stringBody_quoted]
    | whole hne hds line => exact ⟨_, line, .whole hne hds, rfl⟩
    | fraction hne hds hnf hfs line => exact ⟨_, line, .fraction hne hds hnf hfs, rfl⟩
  · rintro ⟨p, line, hp, htoken⟩
    cases hp with
    | operator o =>
      obtain rfl := Option.some.inj htoken
      exact .operator o line
    | @word c w hc hw =>
      obtain rfl := Option.some.inj htoken
      dsimp only
      rw [Kind.ofWord]
      cases hk : Keyword.ofSpelling? (c :: w) with
      | some k =>
        rw [← Keyword.ofSpelling?_eq_some_iff.mp hk]
        exact .keyword k line
      | none =>
        refine .identifier (isWordStart_iff.mp hc)
          (fun d hd => isWordPart_iff_or.mp (hw d hd)) ?_ line
        intro k hspell
        rw [Keyword.ofSpelling?_eq_some_iff.mpr hspell] at hk
        exact absurd hk (by simp)
    | whole hne hds =>
      obtain rfl := Option.some.inj htoken
      exact .whole hne hds line
    | fraction hne hds hnf hfs =>
      obtain rfl := Option.some.inj htoken
      exact .fraction hne hds hnf hfs line
    | string hb =>
      obtain rfl := Option.some.inj htoken
      dsimp only
      rw [Piece.stringBody_quoted]
      exact .string hb line
    | _ => exact absurd htoken (by simp [Piece.token?])

namespace Piece

variable {p : Piece} {after : Text}

/-- **A token stops at a blank**, and at the end of the source. -/
theorem fits_of_token? {t : Token} {line : Int} (hp : p.Shaped) (h : p.token? line = some t)
    (hblank : ∀ c ∈ after.head?, isBlank c = true) : p.Fits after := by
  have hextended : ∀ c, isBlank c = true → p.role.extendedBy c = false := by
    intro c hc
    obtain ⟨role, text⟩ := p
    rcases isBlank_cases hc with rfl | rfl | rfl | rfl <;> cases role with
    | operator o => cases o <;> rfl
    | openString | lineComment | openComment => exact absurd h (by simp [token?])
    | _ => rfl
  have hpoint : isFraction after = false := by
    cases after with
    | nil => rfl
    | cons c rest =>
      rcases isBlank_cases (hblank c rfl) with rfl | rfl | rfl | rfl <;> rfl
  exact ⟨hp, hp.fits_nil.2.imp (fun _ c hc => hextended c (hblank c hc)) fun _ => hpoint⟩

end Piece

/-! ## 3. A scan of one thing after the other -/

section Scans

variable {after : Text} (line : Int)

/-- **A scan of a piece and what follows** is the piece and a scan of the rest. -/
theorem startingOn_append {p : Piece} (h : p.Fits after) :
    (Scan.startingOn line (p.text ++ after)).tokens =
        (p.token? (line + p.text.newlines)).toList ++
          (Scan.startingOn (line + p.text.newlines) after).tokens ∧
      (Scan.startingOn line (p.text ++ after)).events =
        (p.event? line).toList ++ (Scan.startingOn (line + p.text.newlines) after).events := by
  have hlines : line + Text.newlines (p.text ++ after) =
      line + p.text.newlines + after.newlines := by
    rw [Text.newlines_append]
    omega
  constructor
  · simp only [Scan.startingOn, Piece.pieces_append h, place, filterMap_cons_toList, hlines,
      List.append_assoc]
    rfl
  · simp only [Scan.startingOn, Piece.pieces_append h, place, filterMap_cons_toList]
    rfl

/-- Blanks leave nothing behind but the line. -/
theorem startingOn_blank {gap : Text} (after : Text) (h : gap.Blank) :
    (Scan.startingOn line (gap ++ after)).tokens =
        (Scan.startingOn (line + gap.newlines) after).tokens ∧
      (Scan.startingOn line (gap ++ after)).events =
        (Scan.startingOn (line + gap.newlines) after).events := by
  induction gap generalizing line with
  | nil => simp
  | cons c gap ih =>
    obtain ⟨hc, hgap⟩ := Bool.and_eq_true_iff.mp (blank_iff.mp h)
    have hfits : Piece.Fits ⟨.blank, [c]⟩ (gap ++ after) := ⟨.blank hc, trivial⟩
    obtain ⟨htokens, hevents⟩ := startingOn_append line hfits
    obtain ⟨htokens', hevents'⟩ := ih (line + Text.newlines [c]) (blank_iff.mpr hgap)
    have hline : line + Text.newlines [c] + Text.newlines gap = line + Text.newlines (c :: gap) := by
      rw [show c :: gap = [c] ++ gap from rfl, Text.newlines_append]
      omega
    rw [hline] at htokens' hevents'
    exact ⟨htokens.trans htokens', hevents.trans hevents'⟩

/-- A token that can be written is read back in front of a blank, with nothing said about it. -/
theorem startingOn_token {t : Token} (h : t.WellFormed)
    (hblank : ∀ c ∈ after.head?, isBlank c = true) :
    ∃ t' : Token, t'.content = t.content ∧
      (Scan.startingOn line (t.lexeme ++ after)).tokens =
        t' :: (Scan.startingOn (line + t.lexeme.newlines) after).tokens ∧
      (Scan.startingOn line (t.lexeme ++ after)).events =
        (Scan.startingOn (line + t.lexeme.newlines) after).events := by
  obtain ⟨p, l, hp, htoken⟩ := wellFormed_iff.mp h
  obtain ⟨t', htoken', hcontent⟩ := Piece.content_token? htoken (line + p.text.newlines)
  obtain ⟨htokens, hevents⟩ := startingOn_append line (Piece.fits_of_token? hp htoken hblank)
  rw [htoken'] at htokens
  rw [Piece.event?_of_token? htoken line] at hevents
  rw [(Piece.token_of_mem htoken).1]
  exact ⟨t', hcontent, htokens, hevents⟩

end Scans

/-! ## 4. Reading back -/

/-- Every token can be written, and is kept from its neighbours by a blank at least. -/
structure Writable (ts : List (Token × Text)) : Prop where
  wellFormed : ∀ x ∈ ts, x.1.WellFormed
  blank : ∀ x ∈ ts, x.2.Blank
  apart : ∀ x ∈ ts.dropLast, x.2 ≠ []

namespace Writable

variable {x : Token × Text} {ts : List (Token × Text)}

theorem tail (h : Writable (x :: ts)) : Writable ts := by
  refine ⟨?_, ?_, ?_⟩
  · intro y hy
    exact h.wellFormed y (List.mem_cons_of_mem _ hy)
  · intro y hy
    exact h.blank y (List.mem_cons_of_mem _ hy)
  · intro y hy
    cases ts with
    | nil => exact absurd hy (by simp)
    | cons z ts => exact h.apart y (List.mem_cons_of_mem _ hy)

/-- What is written behind a token begins with a blank. -/
theorem isBlank_head (h : Writable (x :: ts)) :
    ∀ c ∈ (x.2 ++ written ts).head?, isBlank c = true := by
  intro c hc
  cases hgap : x.2 with
  | cons d gap =>
    rw [hgap] at hc
    obtain rfl : d = c := Option.some.inj hc
    have hall := blank_iff.mp (h.blank x List.mem_cons_self)
    rw [hgap] at hall
    exact (Bool.and_eq_true_iff.mp hall).1
  | nil =>
    -- only the last token has nothing behind it
    rw [hgap] at hc
    cases ts with
    | nil => exact absurd hc (by simp [written])
    | cons y ts => exact absurd hgap (h.apart x List.mem_cons_self)

end Writable

/-- **A scan reads back what was written**, on whatever line it starts. -/
theorem startingOn_written {ts : List (Token × Text)} (h : Writable ts) (line : Int) :
    (Scan.startingOn line (written ts)).tokens.map Token.content =
        ts.map (fun x => x.1.content) ++ [(.endOfSource, [], none)] ∧
      (Scan.startingOn line (written ts)).events = [] := by
  induction ts generalizing line with
  | nil => simp [written, Scan.startingOn, place, Token.endOn, Token.content]
  | cons x ts ih =>
    obtain ⟨t, gap⟩ := x
    have htext : written ((t, gap) :: ts) = t.lexeme ++ (gap ++ written ts) := by
      simp [written]
    obtain ⟨t', hcontent, htokens, hevents⟩ :=
      startingOn_token line (h.wellFormed _ List.mem_cons_self) h.isBlank_head
    obtain ⟨htokens', hevents'⟩ :=
      startingOn_blank (line + t.lexeme.newlines) (written ts) (h.blank _ List.mem_cons_self)
    obtain ⟨ihtokens, ihevents⟩ := ih h.tail (line + t.lexeme.newlines + gap.newlines)
    rw [htext, htokens, htokens', hevents, hevents', List.map_cons, ihtokens, hcontent]
    exact ⟨rfl, ihevents⟩

/-! ## 5. Tokens with single spaces between them -/

/-- A token of a scan, other than the end token, can be written. -/
theorem wellFormed_of_mem {source : Text} {t : Token}
    (h : t ∈ (Scan.ofSource source).tokens.dropLast) : t.WellFormed := by
  rw [tokens_ofSource, List.dropLast_concat] at h
  obtain ⟨u, hu, htu⟩ := List.mem_flatMap.mp h
  obtain ⟨before, p, after, rfl, hp, rfl⟩ := mem_trace hu
  exact wellFormed_iff.mpr ⟨p, _, hp.1, Option.mem_toList.mp htu⟩

/-- The end token closes the tokens of a scan. -/
theorem tokens_eq_dropLast_append (source : Text) :
    ∃ line, (Scan.ofSource source).tokens =
      (Scan.ofSource source).tokens.dropLast ++ [Token.endOn line] := by
  refine ⟨source.lineAt source.length, ?_⟩
  rw [tokens_ofSource, List.dropLast_concat]

/-- Tokens with a space behind each but the last, which has `final` behind it. -/
def spaced (final : Text) : List Token → List (Token × Text)
  | [] => []
  | [t] => [(t, final)]
  | t :: u :: ts => (t, [' ']) :: spaced final (u :: ts)

section Spaced

variable {final : Text}

theorem map_spaced {α : Type} (f : Token → α) (ts : List Token) :
    (spaced final ts).map (fun x => f x.1) = ts.map f := by
  fun_induction spaced final ts with
  | case1 => rfl
  | case2 t => rfl
  | case3 t u ts ih => rw [List.map_cons, ih, ← List.map_cons]

theorem spaced_ne_nil (t : Token) (ts : List Token) : spaced final (t :: ts) ≠ [] := by
  cases ts <;> simp [spaced]

theorem writable_spaced {ts : List Token} (h : ∀ t ∈ ts, t.WellFormed) (hfinal : final.Blank) :
    Writable (spaced final ts) := by
  have hspace : Text.Blank [' '] := blank_iff.mpr rfl
  fun_induction spaced final ts with
  | case1 => exact ⟨by simp, by simp, by simp⟩
  | case2 t =>
    refine ⟨?_, ?_, by simp⟩
    · intro x hx
      obtain rfl := List.mem_singleton.mp hx
      exact h t List.mem_cons_self
    · intro x hx
      obtain rfl := List.mem_singleton.mp hx
      exact hfinal
  | case3 t u ts ih =>
    have ih' := ih fun v hv => h v (List.mem_cons_of_mem _ hv)
    refine ⟨?_, ?_, ?_⟩
    · intro x hx
      rcases List.mem_cons.mp hx with rfl | hx
      · exact h t List.mem_cons_self
      · exact ih'.wellFormed x hx
    · intro x hx
      rcases List.mem_cons.mp hx with rfl | hx
      · exact hspace
      · exact ih'.blank x hx
    · intro x hx
      rw [List.dropLast_cons_of_ne_nil (spaced_ne_nil u ts)] at hx
      rcases List.mem_cons.mp hx with rfl | hx
      · exact List.cons_ne_nil _ _
      · exact ih'.apart x hx

/-- Lexemes with single spaces between them, as they are written.  What follows the lexemes
makes the text behind the last of them. -/
theorem unwords_eq_written (tail : List Text) (hnil : Text.unwords tail = [])
    (hlast : ∀ l : Text, Text.unwords (l :: tail) = l ++ final) (ts : List Token) :
    Text.unwords (ts.map Token.lexeme ++ tail) = written (spaced final ts) := by
  fun_induction spaced final ts with
  | case1 => exact hnil
  | case2 t => simpa [written] using hlast t.lexeme
  | case3 t u ts ih =>
    have hstep : Text.unwords (t.lexeme :: ((u :: ts).map Token.lexeme ++ tail)) =
        t.lexeme ++ ' ' :: Text.unwords ((u :: ts).map Token.lexeme ++ tail) := by
      simp [Text.unwords, List.intercalate_cons_cons]
    rw [List.map_cons, List.cons_append, hstep, ih]
    simp [written]

end Spaced

/-- A scan reads back the tokens of a scan from their lexemes. -/
theorem scan_spaced {final text source : Text} (hfinal : final.Blank)
    (htext : text = written (spaced final (Scan.ofSource source).tokens.dropLast)) :
    (Scan.ofSource text).tokens.map Token.content =
        (Scan.ofSource source).tokens.map Token.content ∧
      (Scan.ofSource text).diagnostics = [] := by
  have hwritable : Writable (spaced final (Scan.ofSource source).tokens.dropLast) :=
    writable_spaced (fun t ht => wellFormed_of_mem ht) hfinal
  obtain ⟨htokens, hevents⟩ := startingOn_written hwritable 1
  obtain ⟨line, hend⟩ := tokens_eq_dropLast_append source
  subst htext
  refine ⟨?_, congrArg diagnosticsOf hevents⟩
  calc
    _ = _ ++ [(.endOfSource, [], none)] := htokens
    _ = (Scan.ofSource source).tokens.dropLast.map Token.content ++
        [(Token.endOn line).content] := by
          rw [map_spaced]
          rfl
    _ = (Scan.ofSource source).tokens.map Token.content := by
          rw [← List.map_singleton, ← List.map_append, ← hend]

/-! ## 6. The round trip -/

/-- **Scanning undoes writing.**  Tokens that can be written, with blanks between neighbours
and possibly before the first and behind the last, are read back with their kinds, lexemes and
literals, an end token follows them, and nothing is reported.  So are the tokens of any scan
from their lexemes with single spaces between them, with or without the end token's. -/
theorem scan_written :
    (∀ (lead : Text) (ts : List (Token × Text)), lead.Blank → Writable ts →
      let scan := Scan.ofSource (lead ++ written ts)
      scan.tokens.map Token.content =
          ts.map (fun x => x.1.content) ++ [(.endOfSource, [], none)] ∧
        scan.diagnostics = []) ∧
      ∀ source : Text,
        let tokens := (Scan.ofSource source).tokens
        ∀ lexemes ∈ [tokens.map Token.lexeme, tokens.dropLast.map Token.lexeme],
          let again := Scan.ofSource (Text.unwords lexemes)
          again.tokens.map Token.content = tokens.map Token.content ∧ again.diagnostics = [] := by
  constructor
  · intro lead ts hlead h
    obtain ⟨hleadTokens, hleadEvents⟩ := startingOn_blank 1 (written ts) hlead
    obtain ⟨htokens, hevents⟩ := startingOn_written h (1 + lead.newlines)
    refine ⟨(congrArg _ hleadTokens).trans htokens, ?_⟩
    exact congrArg diagnosticsOf (hleadEvents.trans hevents)
  · intro source tokens lexemes hlexemes
    rcases List.mem_cons.mp hlexemes with rfl | hlexemes
    · obtain ⟨line, hend⟩ := tokens_eq_dropLast_append source
      have hspace : Text.Blank [' '] := blank_iff.mpr rfl
      have hsplit : tokens.map Token.lexeme = tokens.dropLast.map Token.lexeme ++ [[]] := by
        refine (congrArg (List.map Token.lexeme) hend).trans ?_
        rw [List.map_append]
        rfl
      refine scan_spaced hspace ?_
      rw [hsplit]
      refine unwords_eq_written [[]] rfl (fun l => ?_) _
      simp [Text.unwords, List.intercalate_cons_cons]
    · obtain rfl := List.mem_singleton.mp hlexemes
      have hnone : Text.Blank [] := blank_iff.mpr rfl
      refine scan_spaced hnone ?_
      rw [← unwords_eq_written [] rfl (fun l => by simp [Text.unwords]), List.append_nil]

/-- A comment that opens inside a string, a number, a keyword, and a word that begins like
it; then a source whose string is left open, and that holds a stray character. -/
theorem scan_written_mixed :
    (let scan := Scan.ofSource "\n\"/*\n\"\t12.5 or\rorb".toList
     scan.tokens.map Token.content =
          [(.string, "\"/*\n\"".toList, some (.text "/*\n".toList)),
            (.number, "12.5".toList, some (.number (Decimal.ofNumeral "12.5".toList).round)),
            (.keyword .orWord, "or".toList, none), (.identifier, "orb".toList, none),
            (.endOfSource, [], none)] ∧
        scan.diagnostics = []) ∧
      (let again := Scan.ofSource "a <= 1 ".toList
       again.tokens.map Token.content =
            (Scan.ofSource "a<=1#\"".toList).tokens.map Token.content ∧
          again.diagnostics = []) := by
  constructor
  · refine scan_written.1 ['\n']
      [(⟨.string, "\"/*\n\"".toList, some (.text "/*\n".toList), 0⟩, ['\t']),
        (⟨.number, "12.5".toList, some (.number (Decimal.ofNumeral "12.5".toList).round), 0⟩, [' ']),
        (⟨.keyword .orWord, "or".toList, none, 0⟩, ['\r']),
        (⟨.identifier, "orb".toList, none, 0⟩, [])] ?_ ⟨?_, ?_, ?_⟩
    · exact blank_iff.mpr rfl
    · intro x hx
      simp only [List.mem_cons, List.not_mem_nil, or_false] at hx
      rcases hx with rfl | rfl | rfl | rfl
      · exact .string (b := "/*\n".toList) (by decide) 0
      · exact @Token.WellFormed.fraction ['1', '2'] ['5'] (by decide)
          (List.all_eq_true.mp rfl) (by decide) (List.all_eq_true.mp rfl) 0
      · exact .keyword .orWord 0
      · have hletters : ∀ d ∈ ['r', 'b'], d.isAlpha = true := List.all_eq_true.mp rfl
        exact .identifier (by decide) (fun d hd => Or.inl (hletters d hd))
          (fun k => by cases k <;> decide) 0
    · intro x hx
      simp only [List.mem_cons, List.not_mem_nil, or_false] at hx
      rcases hx with rfl | rfl | rfl | rfl <;> exact blank_iff.mpr rfl
    · decide
  · have htext : Text.unwords ((Scan.ofSource "a<=1#\"".toList).tokens.map Token.lexeme) =
        "a <= 1 ".toList := by decide +kernel
    rw [← htext]
    exact scan_written.2 "a<=1#\"".toList _ List.mem_cons_self

end Loxeme
