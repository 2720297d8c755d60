/-
# The longest match

The lexical grammar as it is written down: seven classes of units, each a set of texts, and
the rule that a scan always takes the longest prefix of what is left that belongs to one of
them.  Nothing here says how the prefix is found.

* `UnitClass.Admits` is the grammar, `UnitClass.Yields` says what becomes of a unit.
* `longestUnit_of_fits`: a piece that fits where it stands is the longest unit there.
* `scan_longest_units`: the steps of a scan cut the source into longest units, and the tokens
  and diagnostics of the scan are theirs, in order.
-/
import Loxeme.Proofs.Trace

namespace Loxeme

/-! ## 1. The grammar -/

/-- The classes of units.  A text that is of several classes counts for the first. -/
inductive UnitClass where
  | symbol
  | lineComment
  | blockComment
  | string
  | number
  | word
  | other
  deriving DecidableEq, Repr

/-- The texts of punctuation. -/
def symbols : List Text :=
  [['('], [')'], ['\x7b'], ['\x7d'], [','], ['.'], ['-'], ['+'], [';'], ['*'], ['/'],
    ['!'], ['='], ['<'], ['>'], ['!', '='], ['=', '='], ['<', '='], ['>', '=']]

/-- The characters that separate and mean nothing else. -/
def blanks : List Char := [' ', '\t', '\r', '\n']

namespace UnitClass

/-- The place of a class among the classes. -/
def rank : UnitClass → Nat
  | symbol => 0
  | lineComment => 1
  | blockComment => 2
  | string => 3
  | number => 4
  | word => 5
  | other => 6

/-- `k.Admits p after`: the text `p`, where `after` is all that follows it, is of class `k`. -/
inductive Admits : UnitClass → Text → Text → Prop
  | symbol {p after : Text} (hp : p ∈ symbols) : Admits symbol p after
  | lineComment {b after : Text} (hb : '\n' ∉ b) (ha : after = [] ∨ after.head? = some '\n') :
      Admits lineComment ('/' :: '/' :: b) after
  | closedComment {b after : Text} (hb : ¬ ['*', '/'] <:+: b ++ ['*']) :
      Admits blockComment ('/' :: '*' :: (b ++ ['*', '/'])) after
  | openComment {b : Text} (hb : ¬ ['*', '/'] <:+: b) : Admits blockComment ('/' :: '*' :: b) []
  | closedString {b after : Text} (hb : '"' ∉ b) : Admits string ('"' :: b ++ ['"']) after
  | openString {b : Text} (hb : '"' ∉ b) : Admits string ('"' :: b) []
  | whole {ds after : Text} (hne : ds ≠ []) (hds : ∀ d ∈ ds, d.isDigit = true) :
      Admits number ds after
  | fraction {ds fs after : Text} (hne : ds ≠ []) (hds : ∀ d ∈ ds, d.isDigit = true)
      (hnf : fs ≠ []) (hfs : ∀ d ∈ fs, d.isDigit = true) : Admits number (ds ++ '.' :: fs) after
  | word {c : Char} {t after : Text} (hc : c.isAlpha = true ∨ c = '_')
      (ht : ∀ d ∈ t, d.isAlpha = true ∨ d.isDigit = true ∨ d = '_') : Admits word (c :: t) after
  | other {c : Char} {after : Text} : Admits other [c] after

/-- `k.Yields p token? fault?`: what becomes of the text `p` as a unit of class `k`, namely the
kind and the literal of its token, if it makes one, and what is wrong with it, if anything. -/
inductive Yields : UnitClass → Text → Option (Kind × Option Literal) → Option Fault → Prop
  | symbol (o : Operator) : Yields symbol o.spelling (some (.operator o, none)) none
  | lineComment (p : Text) : Yields lineComment p none none
  | blockComment (p : Text) : Yields blockComment p none none
  | closedString {b : Text} (hb : '"' ∉ b) :
      Yields string ('"' :: b ++ ['"']) (some (.string, some (.text b))) none
  | openString {b : Text} (hb : '"' ∉ b) : Yields string ('"' :: b) none (some .unterminatedString)
  | number (p : Text) :
      Yields number p (some (.number, some (.number (Decimal.ofNumeral p).round))) none
  | keyword (k : Keyword) : Yields word k.spelling (some (.keyword k, none)) none
  | identifier {p : Text} (hp : ∀ k : Keyword, k.spelling ≠ p) :
      Yields word p (some (.identifier, none)) none
  | blank {c : Char} (hc : c ∈ blanks) : Yields other [c] none none
  | unexpected {c : Char} (hc : c ∉ blanks) : Yields other [c] none (some (.unexpected c))

end UnitClass

/-- A span reads the longest unit that begins where it starts, and `k` is the first class of
that unit. -/
structure LongestUnit (source : Text) (u : Span) (k : UnitClass) : Prop where
  split : source.drop u.start = u.textIn source ++ source.drop u.stop
  admits : k.Admits (u.textIn source) (source.drop u.stop)
  longest : ∀ (k' : UnitClass) (p after : Text), source.drop u.start = p ++ after →
    k'.Admits p after → p.length ≤ (u.textIn source).length
  first : ∀ k' : UnitClass, k'.Admits (u.textIn source) (source.drop u.stop) → k.rank ≤ k'.rank

/-! ## 2. Classes and roles -/

/-- The class of the pieces in a role. -/
def Role.unitClass : Role → UnitClass
  | .operator _ => .symbol
  | .word => .word
  | .number => .number
  | .string | .openString => .string
  | .lineComment => .lineComment
  | .blockComment | .openComment => .blockComment
  | .blank | .unexpected => .other

theorem mem_symbols_iff {p : Text} : p ∈ symbols ↔ ∃ o : Operator, o.spelling = p := by
  constructor
  · intro h
    have hall : ∀ p ∈ symbols, (Operator.ofSpelling? p).isSome = true := by decide
    obtain ⟨o, ho⟩ := Option.isSome_iff_exists.mp (hall p h)
    exact ⟨o, Operator.ofSpelling?_eq_some_iff.mp ho⟩
  · rintro ⟨o, rfl⟩
    cases o <;> decide

theorem isWordStart_iff {c : Char} : isWordStart c = true ↔ c.isAlpha = true ∨ c = '_' := by
  simp [isWordStart]

theorem isWordPart_iff_or {c : Char} :
    isWordPart c = true ↔ c.isAlpha = true ∨ c.isDigit = true ∨ c = '_' := by
  simp [isWordPart, Char.isAlphanum, or_assoc]

theorem isBlank_iff_mem {c : Char} : isBlank c = true ↔ c ∈ blanks := by
  simp [isBlank, blanks, or_assoc]

namespace Piece

/-- A piece is of the class of its role. -/
theorem admits_of_fits {p : Piece} {after : Text} (h : p.Fits after) :
    p.role.unitClass.Admits p.text after := by
  obtain ⟨hp, hs⟩ := h
  cases hp with
  | operator o => exact .symbol (mem_symbols_iff.mpr ⟨o, rfl⟩)
  | word hc ht =>
    exact .word (isWordStart_iff.mp hc) fun d hd => isWordPart_iff_or.mp (ht d hd)
  | whole hne hds => exact .whole hne hds
  | fraction hne hds hnf hfs => exact .fraction hne hds hnf hfs
  | string hb => exact .closedString hb
  | openString hb =>
    obtain rfl : after = [] := hs
    exact .openString hb
  | blank _ => exact .other
  | lineComment hb =>
    refine .lineComment hb ?_
    cases after with
    | nil => exact Or.inl rfl
    | cons c after =>
      have hc : c = '\n' := by simpa using stopsAt_cons.mp hs
      exact Or.inr (congrArg some hc)
  | blockComment hb => exact .closedComment hb
  | openComment hb =>
    obtain rfl : after = [] := hs
    exact .openComment hb
  | unexpected _ => exact .other

/-- A unit of any class but the last has the shape of a piece of that class. -/
theorem exists_shaped_of_admits {k : UnitClass} {t after : Text} (h : k.Admits t after)
    (hk : k ≠ .other) : ∃ p : Piece, p.Shaped ∧ p.text = t ∧ p.role.unitClass = k := by
  cases h with
  | symbol hp =>
    obtain ⟨o, rfl⟩ := mem_symbols_iff.mp hp
    exact ⟨_, .operator o, rfl, rfl⟩
  | lineComment hb _ => exact ⟨_, .lineComment hb, rfl, rfl⟩
  | closedComment hb => exact ⟨_, .blockComment hb, rfl, rfl⟩
  | openComment hb => exact ⟨_, .openComment hb, rfl, rfl⟩
  | closedString hb => exact ⟨_, .string hb, rfl, rfl⟩
  | openString hb => exact ⟨_, .openString hb, rfl, rfl⟩
  | whole hne hds => exact ⟨_, .whole hne hds, rfl, rfl⟩
  | fraction hne hds hnf hfs => exact ⟨_, .fraction hne hds hnf hfs, rfl, rfl⟩
  | word hc ht =>
    exact ⟨_, .word (isWordStart_iff.mpr hc) fun d hd => isWordPart_iff_or.mpr (ht d hd), rfl, rfl⟩
  | other => exact absurd rfl hk

/-- The class of a shaped piece is the first that admits its text: a shaped text has only one
shape, and the class that admits every character is the last. -/
theorem rank_le_of_admits {p : Piece} {k : UnitClass} {after : Text} (hp : p.Shaped)
    (h : k.Admits p.text after) : p.role.unitClass.rank ≤ k.rank := by
  by_cases hk : k = .other
  · subst hk
    cases p.role.unitClass <;> decide
  · obtain ⟨q, hq, htext, hclass⟩ := exists_shaped_of_admits h hk
    obtain rfl : q = p := hq.eq_of_text hp htext
    exact Nat.le_of_eq (congrArg UnitClass.rank hclass)

/-! ## 3. No unit is longer than the piece that is read -/

theorem length_le_takeWhile {p : Char → Bool} {t : Text} (ht : ∀ d ∈ t, p d = true)
    (after : Text) :
    t.length ≤ ((t ++ after).takeWhile p).length := by
  rw [List.takeWhile_append_of_pos ht, List.length_append]
  omega

theorem length_pos_first (c : Char) (rest : Text) : 0 < (first c rest).1.text.length :=
  List.length_pos_iff.mpr (text_first_ne_nil c rest)

section NoLonger

variable {c : Char} {t after rest : Text}

theorem operator_length_le {o : Operator} (h : o.spelling ++ after = c :: rest) :
    o.spelling.length ≤ (first c rest).1.text.length := by
  by_cases hs : StopsAt o.extendedBy after
  · obtain ⟨c', rest', h', hfirst⟩ := first_operator o hs
    rw [h'] at h
    obtain ⟨rfl, rfl⟩ := List.cons.inj h
    rw [hfirst]
  · -- only an operator of one character can be extended
    have hone : o.spelling.length = 1 := by
      rcases spelling_eq_or o with ⟨d, hd⟩ | ⟨d, hd⟩
      · rw [hd]; rfl
      · refine absurd ?_ hs
        cases o <;> simp [Operator.spelling] at hd <;> (intro e _; rfl)
    have := length_pos_first c rest
    omega

theorem word_length_le (hc : isWordStart c = true) (ht : ∀ d ∈ t, isWordPart d = true) :
    (c :: t).length ≤ (first c (t ++ after)).1.text.length := by
  rw [first_word hc]
  exact Nat.succ_le_succ (length_le_takeWhile ht after)

/-- A number has at least all digits that come first. -/
theorem whole_length_le (hc : c.isDigit = true) (ht : ∀ d ∈ t, d.isDigit = true) :
    (c :: t).length ≤ (first c (t ++ after)).1.text.length := by
  have hle := length_le_takeWhile ht after
  rw [first_digit hc]
  unfold afterDigit
  dsimp only
  split
  · split
    · simp only [List.length_append, List.length_cons]
      omega
    · exact Nat.succ_le_succ hle
  · exact Nat.succ_le_succ hle

theorem fraction_length_le {d : Char} {fs : Text} (hc : c.isDigit = true)
    (ht : ∀ e ∈ t, e.isDigit = true) (hd : d.isDigit = true) (hfs : ∀ e ∈ fs, e.isDigit = true) :
    (c :: t ++ '.' :: d :: fs).length ≤ (first c (t ++ '.' :: d :: (fs ++ after))).1.text.length := by
  have hpoint : StopsAt Char.isDigit ('.' :: d :: (fs ++ after)) := stopsAt_cons.mpr (by decide)
  have hle := length_le_takeWhile hfs after
  rw [first_digit hc, afterDigit_fraction (dropWhile_append_of_stopsAt ht hpoint) hd,
    takeWhile_append_of_stopsAt ht hpoint]
  simp only [List.length_append, List.length_cons]
  omega

/-- **No unit is longer than the piece that is read.** -/
theorem length_le_of_admits {k : UnitClass} (h : k.Admits t after)
    (ht : t ++ after = c :: rest) : t.length ≤ (first c rest).1.text.length := by
  -- a unit that fits is the very piece that is read
  have hfit : ∀ q : Piece, q.Fits after → q.text = t → t.length ≤ (first c rest).1.text.length := by
    rintro q hq rfl
    obtain ⟨c', rest', htext, hfirst⟩ := first_of_fits hq
    rw [htext] at ht
    obtain ⟨rfl, rfl⟩ := List.cons.inj ht
    rw [hfirst]
  cases h with
  | symbol hp =>
    obtain ⟨o, rfl⟩ := mem_symbols_iff.mp hp
    exact operator_length_le ht
  | lineComment hb ha =>
    refine hfit _ ⟨.lineComment hb, ?_⟩ rfl
    rcases ha with rfl | ha
    · exact stopsAt_nil _
    · intro d hd
      obtain rfl : d = '\n' := Option.some.inj (hd.symm.trans ha)
      decide
  | closedComment hb => exact hfit _ ⟨.blockComment hb, trivial⟩ rfl
  | openComment hb => exact hfit _ ⟨.openComment hb, rfl⟩ rfl
  | closedString hb => exact hfit _ ⟨.string hb, trivial⟩ rfl
  | openString hb => exact hfit _ ⟨.openString hb, rfl⟩ rfl
  | whole hne hds =>
    obtain ⟨d, ds, rfl⟩ := List.exists_cons_of_ne_nil hne
    obtain ⟨rfl, rfl⟩ := List.cons.inj ht
    exact whole_length_le (hds d List.mem_cons_self) fun e he => hds e (List.mem_cons_of_mem _ he)
  | fraction hne hds hnf hfs =>
    obtain ⟨d, ds, rfl⟩ := List.exists_cons_of_ne_nil hne
    obtain ⟨f, fs, rfl⟩ := List.exists_cons_of_ne_nil hnf
    rw [List.append_assoc] at ht
    obtain ⟨rfl, rfl⟩ := List.cons.inj ht
    exact fraction_length_le (hds d List.mem_cons_self)
      (fun e he => hds e (List.mem_cons_of_mem _ he)) (hfs f List.mem_cons_self)
      fun e he => hfs e (List.mem_cons_of_mem _ he)
  | word hc htail =>
    obtain ⟨rfl, rfl⟩ := List.cons.inj ht
    exact word_length_le (isWordStart_iff.mpr hc) fun d hd => isWordPart_iff_or.mpr (htail d hd)
  | other => exact length_pos_first c rest

end NoLonger

/-! ## 4. What becomes of a piece -/

theorem stringBody_quoted (b : Text) : stringBody ('"' :: b ++ ['"']) = b := by
  simp [stringBody]

/-- The token and the report of a piece are those of its class, on the line where it ends. -/
theorem exists_yields_of_shaped {p : Piece} (h : p.Shaped) (line : Int) :
    ∃ token? fault?, p.role.unitClass.Yields p.text token? fault? ∧
      (p.token? (line + p.text.newlines)).toList =
        token?.toList.map (fun (kind, literal) =>
          ⟨kind, p.text, literal, line + p.text.newlines⟩) ∧
      diagnosticsOf (p.event? line).toList =
        fault?.toList.map (Diagnostic.ofFault (line + p.text.newlines)) := by
  cases h with
  | operator o => exact ⟨_, _, .symbol o, rfl, rfl⟩
  | @word c t hc ht =>
    cases hk : Keyword.ofSpelling? (c :: t) with
    | some k =>
      have hspell := Keyword.ofSpelling?_eq_some_iff.mp hk
      refine ⟨some (.keyword k, none), none, ?_, ?_, rfl⟩
      · rw [← hspell]
        exact .keyword k
      · simp [token?, Kind.ofWord, hk]
    | none =>
      refine ⟨some (.identifier, none), none, .identifier ?_, ?_, rfl⟩
      · intro k hspell
        rw [Keyword.ofSpelling?_eq_some_iff.mpr hspell] at hk
        exact absurd hk (by simp)
      · simp [token?, Kind.ofWord, hk]
  | whole _ _ => exact ⟨_, _, .number _, rfl, rfl⟩
  | fraction _ _ _ _ => exact ⟨_, _, .number _, rfl, rfl⟩
  | @string b hb =>
    refine ⟨_, _, .closedString hb, ?_, rfl⟩
    rw [token?, stringBody_quoted]
    rfl
  | openString hb => exact ⟨_, _, .openString hb, rfl, rfl⟩
  | blank hc => exact ⟨_, _, .blank (isBlank_iff_mem.mp hc), rfl, rfl⟩
  | lineComment _ => exact ⟨_, _, .lineComment _, rfl, rfl⟩
  | blockComment _ => exact ⟨_, _, .blockComment _, rfl, rfl⟩
  | openComment _ => exact ⟨_, _, .blockComment _, rfl, rfl⟩
  | @unexpected c hc =>
    have hblank : isBlank c = false := (isUnexpected_iff.mp hc).2.2.2.1
    have hmem : c ∉ blanks := by
      rw [← isBlank_iff_mem, hblank]
      simp
    have hline : c ≠ '\n' := by
      rintro rfl
      exact hmem (by decide)
    refine ⟨_, _, .unexpected hmem, rfl, ?_⟩
    simp [event?, diagnosticsOf, Event.diagnostic?, hline]

end Piece

/-! ## 5. The scan -/

/-- **A piece that fits where it stands is the longest unit there.** -/
theorem longestUnit_of_fits {before after : Text} {p : Piece} {line : Int} (h : p.Fits after) :
    LongestUnit (before ++ p.text ++ after) (Span.ofPiece before.length line p)
      p.role.unitClass := by
  refine ⟨?_, ?_, ?_, ?_⟩
  · rw [Span.drop_start_ofPiece, Span.textIn_ofPiece, Span.drop_stop_ofPiece]
  · rw [Span.textIn_ofPiece, Span.drop_stop_ofPiece]
    exact Piece.admits_of_fits h
  · intro k q rest hq hk
    rw [Span.drop_start_ofPiece] at hq
    obtain ⟨c, cs, htext, hfirst⟩ := Piece.first_of_fits h
    have hle := Piece.length_le_of_admits hk (hq.symm.trans htext)
    rw [hfirst] at hle
    rw [Span.textIn_ofPiece]
    exact hle
  · intro k hk
    rw [Span.textIn_ofPiece] at hk
    exact Piece.rank_le_of_admits h.1 hk

/-- **A scan cuts its source into longest units.**  The steps of the scan cover the source
without gap or overlap, each one reads the longest unit that begins where it starts, and the
tokens and the diagnostics of the scan are what these units yield, in order. -/
theorem scan_longest_units (source : Text) :
    let units := (Scanner.ofSource source).trace
    Span.Tiles 0 source.length units ∧
      (∀ u ∈ units, ∃ k token? fault?,
        LongestUnit source u k ∧ k.Yields (u.textIn source) token? fault? ∧
          u.tokens = token?.toList.map (fun (kind, literal) =>
            ⟨kind, u.textIn source, literal, source.lineAt u.stop⟩) ∧
          u.diagnostics = fault?.toList.map (Diagnostic.ofFault (source.lineAt u.stop))) ∧
      (Scanner.ofSource source).finish.1.tokens =
        units.flatMap Span.tokens ++ [Token.endOn (source.lineAt source.length)] ∧
      (Scan.ofSource source).tokens =
        units.flatMap Span.tokens ++ [Token.endOn (source.lineAt source.length)] ∧
      (Scan.ofSource source).diagnostics = units.flatMap Span.diagnostics := by
  refine ⟨tiles_trace source, ?_, ?_, tokens_ofSource source, diagnostics_ofSource source⟩
  · intro u hu
    obtain ⟨before, p, after, rfl, hp, rfl⟩ := mem_trace hu
    obtain ⟨token?, fault?, hyields, htokens, hdiagnostics⟩ :=
      Piece.exists_yields_of_shaped hp.1 (1 + Text.newlines before)
    refine ⟨p.role.unitClass, token?, fault?, longestUnit_of_fits hp, ?_, ?_, ?_⟩
    · rw [Span.textIn_ofPiece]
      exact hyields
    · rw [Span.textIn_ofPiece, Span.lineAt_stop_ofPiece]
      exact htokens
    · rw [Span.lineAt_stop_ofPiece]
      exact hdiagnostics
  · rw [(Scanner.finish_ofSource source).1]
    exact tokens_ofSource source

end Loxeme
