/-
# Tokens with nothing between them

Tokens are written as their lexemes, one right behind the other.  Some neighbours are then read
as something else: words and numbers run together, an operator takes the equals sign behind it,
two slashes begin a comment.  This module says exactly which ones.

* `Kind.runsInto` and `Clash` list the neighbours that do not keep apart.
* `content_scan_iff`: the tokens are read back exactly if their pieces are a proper cut of the
  text.  If they are not, then some piece that is read is no token or a different one, however
  the scan goes on behind it.
* `stops_joined_iff`: a token stops in front of others exactly if it clashes with none of them.
* `scan_joined_iff` puts these together.
-/
import Loxeme.Proofs.RoundTrip
import Mathlib.Data.List.Basic
import Mathlib.Data.List.Flatten

namespace Loxeme

/-! ## 1. Neighbours that clash -/

/-- The kinds of words. -/
def Kind.isWord : Kind → Bool
  | identifier | keyword _ => true
  | _ => false

/-- `k.runsInto next`: a token of kind `k` does not end where one of kind `next` begins. -/
def Kind.runsInto : Kind → Kind → Bool
  | identifier, next | keyword _, next => next.isWord || next = number
  | number, next => next = number
  | operator .bang, next | operator .equal, next | operator .less, next
  | operator .greater, next => next = operator .equal || next = operator .equalEqual
  | operator .slash, next => next = operator .slash || next = operator .star
  | _, _ => false

/-- A number without a fraction. -/
def Token.isWhole (t : Token) : Bool := t.kind = .number && !t.lexeme.contains '.'

/-- Neighbours that are read as something else when nothing stands between them. -/
inductive Clash : List Token → Prop
  | pair {a b : Token} (h : a.kind.runsInto b.kind = true) : Clash [a, b]
  | fraction {a b c : Token} (ha : a.isWhole = true) (hb : b.kind = .operator .dot)
      (hc : c.kind = .number) : Clash [a, b, c]

/-- Tokens written one right behind the other. -/
def joined (ts : List Token) : Text := (ts.map Token.lexeme).flatten

@[simp] theorem joined_nil : joined [] = [] := rfl

@[simp] theorem joined_cons (t : Token) (ts : List Token) :
    joined (t :: ts) = t.lexeme ++ joined ts := rfl

/-- The clashes at the head of a list, one by one. -/
theorem no_clash_prefix_iff {t : Token} {ts : List Token} :
    (∀ run, run <+: t :: ts → ¬ Clash run) ↔
      (∀ u ∈ ts.head?, t.kind.runsInto u.kind = false) ∧
        (t.isWhole = true → ∀ u v, [u, v] <+: ts → u.kind = .operator .dot → v.kind ≠ .number) := by
  constructor
  · intro h
    refine ⟨?_, ?_⟩
    · intro u hu
      obtain ⟨us, rfl⟩ := List.head?_eq_some_iff.mp hu
      rw [Bool.eq_false_iff]
      intro hpair
      exact h [t, u] ⟨us, rfl⟩ (.pair hpair)
    · intro ht u v huv hu hv
      exact h [t, u, v] (List.cons_prefix_cons.mpr ⟨rfl, huv⟩) (.fraction ht hu hv)
  · rintro ⟨hpair, hfraction⟩ run hrun hclash
    cases hclash with
    | @pair a b h =>
      obtain ⟨rfl, hb⟩ := List.cons_prefix_cons.mp hrun
      obtain ⟨us, rfl⟩ := hb
      rw [hpair b rfl] at h
      exact absurd h (by simp)
    | @fraction a b c ha hb hc =>
      obtain ⟨rfl, hbc⟩ := List.cons_prefix_cons.mp hrun
      exact hfraction ha b c hbc hb hc

/-! ## 2. The piece of a token -/

/-- The role of the piece that a token of a kind is read from.  The end token is read from
none, and counts as a blank. -/
def Kind.role : Kind → Role
  | operator o => .operator o
  | identifier | keyword _ => .word
  | string => .string
  | number => .number
  | endOfSource => .blank

/-- The piece that a token is read from. -/
def Token.piece (t : Token) : Piece := ⟨t.kind.role, t.lexeme⟩

theorem Kind.role_ofWord (w : Text) : (ofWord w).role = .word := by
  unfold ofWord
  split <;> rfl

/-- What the token of a piece is, wherever the piece stands. -/
def Piece.content? (p : Piece) : Option (Kind × Text × Option Literal) :=
  (p.token? 0).map Token.content

namespace Piece

theorem content_of_token? (p : Piece) (line : Int) :
    (p.token? line).map Token.content = p.content? := by
  obtain ⟨role, text⟩ := p
  cases role <;> rfl

theorem piece_of_token? {p : Piece} {line : Int} {t : Token} (h : p.token? line = some t) :
    t.piece = p := by
  obtain ⟨role, text⟩ := p
  cases role <;> simp only [token?, Option.some.injEq, reduceCtorEq] at h
  case word =>
    subst h
    simp [Token.piece, Kind.role_ofWord]
  all_goals
    subst h
    rfl

/-- A piece that is a token is told by its text. -/
theorem text_of_content? {p : Piece} {c : Kind × Text × Option Literal}
    (h : p.content? = some c) : c.2.1 = p.text := by
  obtain ⟨t, ht, rfl⟩ := Option.map_eq_some_iff.mp h
  exact congrArg Piece.text (piece_of_token? ht)

end Piece

namespace Token.WellFormed

variable {t : Token}

theorem shaped (h : t.WellFormed) : t.piece.Shaped := by
  obtain ⟨p, line, hp, htoken⟩ := wellFormed_iff.mp h
  rwa [Piece.piece_of_token? htoken]

theorem content_piece (h : t.WellFormed) : t.piece.content? = some t.content := by
  obtain ⟨p, line, hp, htoken⟩ := wellFormed_iff.mp h
  rw [Piece.piece_of_token? htoken, ← Piece.content_of_token? p line, htoken]
  rfl

end Token.WellFormed

/-! ## 3. Read back, or not -/

/-- What the tokens of a scan are is read off the pieces alone. -/
theorem content_startingOn (line : Int) (source : Text) :
    (Scan.startingOn line source).tokens.map Token.content =
      (pieces source).filterMap Piece.content? ++ [(.endOfSource, [], none)] := by
  have hplace : ∀ (ps : List Piece) (line : Int),
      ((place line ps).filterMap Placed.token?).map Token.content =
        ps.filterMap Piece.content? := by
    intro ps
    induction ps with
    | nil => intro line; rfl
    | cons p ps ih =>
      intro line
      rw [place, filterMap_cons_toList, filterMap_cons_toList, List.map_append, ih,
        ← Piece.content_of_token? p (line + p.text.newlines), Option.toList_map]
      rfl
  simp [Scan.startingOn, hplace, Token.endOn, Token.content]

/-- Texts of which some are left out are shorter together. -/
theorem eq_of_sublist_of_flatten {ts us : List Text} (h : ts.Sublist us)
    (hne : ∀ u ∈ us, u ≠ []) (hflatten : ts.flatten = us.flatten) : ts = us := by
  induction h with
  | slnil => rfl
  | @cons ts us u hsub ih =>
    have hle := hsub.flatten.length_le
    have hpos := List.length_pos_iff.mpr (hne u List.mem_cons_self)
    have hlen := congrArg List.length hflatten
    rw [List.flatten_cons, List.length_append] at hlen
    omega
  | @cons_cons ts us u hsub ih =>
    rw [List.flatten_cons, List.flatten_cons, List.append_cancel_left_eq] at hflatten
    rw [ih (fun v hv => hne v (List.mem_cons_of_mem _ hv)) hflatten]

/-- The texts of tokens among those of all pieces. -/
theorem sublist_text (ps : List Piece) :
    ((ps.filterMap Piece.content?).map fun c => c.2.1).Sublist (ps.map Piece.text) := by
  induction ps with
  | nil => exact List.Sublist.slnil
  | cons p ps ih =>
    cases h : p.content? with
    | none =>
      rw [List.filterMap_cons_none h]
      exact ih.cons _
    | some c =>
      rw [List.filterMap_cons_some h, List.map_cons, List.map_cons, Piece.text_of_content? h]
      exact ih.cons_cons _

/-- Shaped pieces are told by their texts. -/
theorem eq_of_map_text {ps qs : List Piece} (hps : ∀ p ∈ ps, p.Shaped) (hqs : ∀ q ∈ qs, q.Shaped)
    (h : ps.map Piece.text = qs.map Piece.text) : ps = qs := by
  induction ps generalizing qs with
  | nil => exact (List.map_eq_nil_iff.mp h.symm).symm
  | cons p ps ih =>
    cases qs with
    | nil => exact absurd h (by simp)
    | cons q qs =>
      obtain ⟨htext, htail⟩ := List.cons.inj h
      rw [(hps p List.mem_cons_self).eq_of_text (hqs q List.mem_cons_self) htext,
        ih (fun p hp => hps p (List.mem_cons_of_mem _ hp))
          (fun q hq => hqs q (List.mem_cons_of_mem _ hq)) htail]

section Tokens

variable {ts : List Token}

theorem flatten_text_piece (ts : List Token) :
    ((ts.map Token.piece).map Piece.text).flatten = joined ts := by
  rw [List.map_map]
  rfl

theorem content_pieces (h : ∀ t ∈ ts, t.WellFormed) :
    (ts.map Token.piece).filterMap Piece.content? = ts.map Token.content := by
  rw [List.filterMap_map, List.filterMap_eq_map_iff_forall_eq_some]
  intro t ht
  exact (h t ht).content_piece

/-- **Tokens are read back exactly if their pieces are a proper cut.**  All of the text goes
into the lexemes, so nothing that is read can be anything but a token. -/
theorem content_scan_iff (h : ∀ t ∈ ts, t.WellFormed) :
    (Scan.ofSource (joined ts)).tokens.map Token.content =
        ts.map Token.content ++ [(.endOfSource, [], none)] ↔
      Piece.Proper (ts.map Token.piece) := by
  rw [Scan.ofSource, content_startingOn, List.append_cancel_right_eq]
  constructor
  · intro hcontent
    have hshaped : ∀ p ∈ pieces (joined ts), p.Shaped := by
      intro p hp
      obtain ⟨before, after, hsplit⟩ := List.append_of_mem hp
      exact (hsplit ▸ proper_pieces (joined ts)).fits.1
    have hlexemes : ((pieces (joined ts)).filterMap Piece.content?).map (fun c => c.2.1) =
        (ts.map Token.piece).map Piece.text := by
      rw [hcontent, List.map_map, List.map_map]
      rfl
    have hsub := sublist_text (pieces (joined ts))
    rw [hlexemes] at hsub
    -- the lexemes are all of the text already, so there is no piece besides the tokens
    have htexts := eq_of_sublist_of_flatten hsub
      (by
        intro u hu
        obtain ⟨p, hp, rfl⟩ := List.mem_map.mp hu
        exact text_ne_nil_of_mem_pieces hp)
      (by rw [flatten_text_piece, flatten_text_pieces])
    have heq : ts.map Token.piece = pieces (joined ts) := by
      refine eq_of_map_text ?_ hshaped htexts
      intro p hp
      obtain ⟨t, ht, rfl⟩ := List.mem_map.mp hp
      exact (h t ht).shaped
    rw [heq]
    exact proper_pieces (joined ts)
  · intro hproper
    have hpieces := pieces_of_proper hproper
    rw [flatten_text_piece] at hpieces
    rw [hpieces, content_pieces h]

/-- Nothing is said about pieces that are tokens. -/
theorem events_scan_of_proper (h : ∀ t ∈ ts, t.WellFormed)
    (hproper : Piece.Proper (ts.map Token.piece)) : (Scan.ofSource (joined ts)).events = [] := by
  have hpieces := pieces_of_proper hproper
  rw [flatten_text_piece] at hpieces
  refine List.filterMap_eq_nil_iff.mpr ?_
  intro x hx
  have hmem : x.piece ∈ (place 1 (pieces (joined ts))).map Placed.piece := List.mem_map_of_mem hx
  rw [map_piece_place, hpieces] at hmem
  obtain ⟨t, ht, htoken⟩ := List.mem_map.mp hmem
  obtain ⟨t', ht', -⟩ := Option.map_eq_some_iff.mp (h t ht).content_piece
  rw [htoken] at ht'
  exact Piece.event?_of_token? ht' x.line

end Tokens

/-! ## 4. A token is told by its first character -/

/-- Whether the first character of a token is in a class depends on the kind of the token. -/
def Tells (f : Char → Bool) (g : Kind → Bool) : Prop :=
  ∀ t : Token, t.WellFormed → ∀ c ∈ t.lexeme.head?, f c = g t.kind

theorem Kind.isWord_ofWord (w : Text) : (ofWord w).isWord = true := by
  unfold ofWord
  split <;> rfl

theorem Kind.isWord_cases {k : Kind} (h : k.isWord = true) :
    k = .identifier ∨ ∃ w, k = .keyword w := by
  cases k <;> simp_all [isWord]

/-- What has to be looked at: each operator, the characters that words and numbers begin with,
and the quote. -/
theorem tells_of {f : Char → Bool} {g : Kind → Bool}
    (hoperator : ∀ o : Operator, ∀ c ∈ o.spelling.head?, f c = g (.operator o))
    (hword : ∀ c k, isWordStart c = true → k.isWord = true → f c = g k)
    (hnumber : ∀ c, c.isDigit = true → f c = g .number)
    (hstring : f '"' = g .string) : Tells f g := by
  intro t ht c hc
  obtain ⟨p, line, hp, htoken⟩ := wellFormed_iff.mp ht
  cases hp with
  | operator o =>
    obtain rfl := Option.some.inj htoken
    exact hoperator o c hc
  | word hd _ =>
    obtain rfl := Option.some.inj htoken
    obtain rfl := Option.some.inj hc
    exact hword _ _ hd (Kind.isWord_ofWord _)
  | @whole ds hne hds =>
    obtain rfl := Option.some.inj htoken
    exact hnumber c (hds c (List.mem_of_head? hc))
  | @fraction ds fs hne hds _ _ =>
    obtain rfl := Option.some.inj htoken
    obtain ⟨d, ds, rfl⟩ := List.exists_cons_of_ne_nil hne
    obtain rfl := Option.some.inj hc
    exact hnumber _ (hds _ List.mem_cons_self)
  | string _ =>
    obtain rfl := Option.some.inj htoken
    obtain rfl := Option.some.inj hc
    exact hstring
  | _ => exact absurd htoken (by simp [Piece.token?])

theorem not_isDigit_of_spelling {o : Operator} {c : Char} (hc : c ∈ o.spelling.head?) :
    c.isDigit = false ∧ isWordPart c = false := by
  cases o <;> (obtain rfl := Option.some.inj hc; decide)

theorem isWordPart_of_isWordStart {c : Char} (h : isWordStart c = true) : isWordPart c = true := by
  rw [isWordPart_iff_or]
  rcases isWordStart_iff.mp h with h | h
  · exact Or.inl h
  · exact Or.inr (Or.inr h)

theorem tells_digit : Tells Char.isDigit (Kind.runsInto .number) := by
  refine tells_of ?_ ?_ ?_ rfl
  · intro o c hc
    rw [(not_isDigit_of_spelling hc).1]
    rfl
  · intro c k hc hk
    rw [(Piece.isWordStart_disjoint hc).2.2]
    rcases Kind.isWord_cases hk with rfl | ⟨w, rfl⟩ <;> rfl
  · intro c hc
    exact hc

theorem tells_wordPart : Tells isWordPart (Kind.runsInto .identifier) := by
  refine tells_of ?_ ?_ ?_ rfl
  · intro o c hc
    rw [(not_isDigit_of_spelling hc).2]
    rfl
  · intro c k hc hk
    rw [isWordPart_of_isWordStart hc, Kind.runsInto, hk]
    rfl
  · intro c hc
    exact isWordPart_iff_or.mpr (Or.inr (Or.inl hc))

/-- What makes an operator longer is punctuation. -/
theorem extendedBy_eq_false {o : Operator} {c : Char}
    (h : c.isDigit = true ∨ isWordStart c = true ∨ c = '"') : o.extendedBy c = false := by
  have hne : c ≠ '=' ∧ c ≠ '/' ∧ c ≠ '*' := by
    refine ⟨?_, ?_, ?_⟩ <;> (rintro rfl; revert h; decide)
  cases o <;> simp [Operator.extendedBy, hne]

theorem tells_operator (o : Operator) : Tells o.extendedBy (Kind.runsInto (.operator o)) := by
  refine tells_of ?_ ?_ ?_ ?_
  · intro o' c hc
    cases o with
    | bang | equal | greater | less | slash =>
      cases o' <;> (obtain rfl := Option.some.inj hc; rfl)
    | _ => rfl
  · intro c k hc hk
    rw [extendedBy_eq_false (Or.inr (Or.inl hc))]
    rcases Kind.isWord_cases hk with rfl | ⟨w, rfl⟩ <;> (cases o <;> rfl)
  · intro c hc
    rw [extendedBy_eq_false (Or.inl hc)]
    cases o <;> rfl
  · cases o <;> rfl

/-- The characters that make a token of a kind longer. -/
def Kind.extendedBy : Kind → Char → Bool
  | operator o => o.extendedBy
  | identifier | keyword _ => isWordPart
  | number => Char.isDigit
  | string | endOfSource => fun _ => false

/-- A token is made longer by the first characters of those that it runs into. -/
theorem tells_extendedBy (k : Kind) : Tells k.extendedBy k.runsInto := by
  cases k with
  | operator o => exact tells_operator o
  | identifier | keyword _ => exact tells_wordPart
  | number => exact tells_digit
  | string | endOfSource => exact fun _ _ _ _ => rfl

theorem tells_point : Tells (fun c => decide (c = '.')) (fun k => decide (k = .operator .dot)) := by
  refine tells_of ?_ ?_ ?_ rfl
  · intro o c hc
    cases o <;> (obtain rfl := Option.some.inj hc; decide)
  · intro c k hc hk
    have hne : c ≠ '.' := by
      rintro rfl
      exact absurd hc (by decide)
    rcases Kind.isWord_cases hk with rfl | ⟨w, rfl⟩ <;> simp [hne]
  · intro c hc
    have hne : c ≠ '.' := by
      rintro rfl
      exact absurd hc (by decide)
    simp [hne]

/-! ## 5. Where a token stops -/

section Stopping

variable {t : Token} {ts : List Token}

theorem Token.WellFormed.lexeme_ne_nil (h : t.WellFormed) : t.lexeme ≠ [] :=
  h.shaped.text_ne_nil

theorem Token.WellFormed.lexeme_of_operator (h : t.WellFormed) {o : Operator}
    (ho : t.kind = .operator o) : t.lexeme = o.spelling := by
  cases h with
  | operator o' line =>
    obtain rfl := Kind.operator.inj ho
    rfl
  | _ => exact absurd ho (by simp)

theorem stopsAt_joined_iff {f : Char → Bool} {g : Kind → Bool} (hfg : Tells f g)
    (h : ∀ u ∈ ts, u.WellFormed) :
    StopsAt f (joined ts) ↔ ∀ u ∈ ts.head?, g u.kind = false := by
  cases ts with
  | nil => simp [stopsAt_nil]
  | cons u ts =>
    have hu := h u List.mem_cons_self
    obtain ⟨c, w, hlexeme⟩ := List.exists_cons_of_ne_nil hu.lexeme_ne_nil
    have hc : f c = g u.kind := hfg u hu c (by rw [hlexeme]; rfl)
    rw [joined_cons, hlexeme, List.cons_append, stopsAt_cons, hc]
    simp

/-- A text of tokens begins like a fraction if a point comes first and then a number. -/
theorem isFraction_joined_iff (h : ∀ u ∈ ts, u.WellFormed) :
    Piece.isFraction (joined ts) = true ↔
      ∃ u v, [u, v] <+: ts ∧ u.kind = .operator .dot ∧ v.kind = .number := by
  cases ts with
  | nil => simp [Piece.isFraction]
  | cons u ts =>
    have hu := h u List.mem_cons_self
    have hts : ∀ v ∈ ts, v.WellFormed := fun v hv => h v (List.mem_cons_of_mem _ hv)
    obtain ⟨c, w, hlexeme⟩ := List.exists_cons_of_ne_nil hu.lexeme_ne_nil
    have hc : decide (c = '.') = decide (u.kind = .operator .dot) :=
      tells_point u hu c (by rw [hlexeme]; rfl)
    -- nothing is left of a point behind its first character
    have hw : u.kind = .operator .dot → w ++ joined ts = joined ts := by
      intro hdot
      have hspell := hu.lexeme_of_operator hdot
      rw [hlexeme] at hspell
      rw [(List.cons.inj hspell).2, List.nil_append]
    rw [joined_cons, hlexeme, List.cons_append, Piece.isFraction_cons, decide_eq_decide.mp hc]
    constructor
    · rintro ⟨hdot, hdigit⟩
      rw [hw hdot, stopsAt_joined_iff tells_digit hts] at hdigit
      push Not at hdigit
      obtain ⟨v, hv, hnumber⟩ := hdigit
      obtain ⟨us, rfl⟩ := List.head?_eq_some_iff.mp hv
      exact ⟨u, v, ⟨us, rfl⟩, hdot, by simpa [Kind.runsInto] using hnumber⟩
    · rintro ⟨u', v, hprefix, hdot, hnumber⟩
      obtain ⟨rfl, us, rfl⟩ := List.cons_prefix_cons.mp hprefix
      refine ⟨hdot, ?_⟩
      rw [hw hdot, stopsAt_joined_iff tells_digit hts]
      intro hall
      exact absurd (hall v rfl) (by simp [Kind.runsInto, hnumber])

/-- A token stops at what makes nothing longer of it.  Only a number without a fraction looks at
more than one character. -/
theorem stops_piece_iff {t : Token} {after : Text} :
    t.piece.Stops after ↔
      StopsAt t.kind.extendedBy after ∧ (t.isWhole = true → Piece.isFraction after = false) := by
  obtain ⟨kind, lexeme, literal, line⟩ := t
  cases kind with
  | number =>
    by_cases hpoint : '.' ∈ lexeme <;>
      simp [Token.piece, Kind.role, Piece.Stops, Kind.extendedBy, Token.isWhole, hpoint]
  | _ => simp [Token.piece, Kind.role, Piece.Stops, Kind.extendedBy, Token.isWhole, StopsAt]

/-- **A token stops in front of others exactly if it clashes with none of them.** -/
theorem stops_joined_iff (t : Token) (h : ∀ u ∈ ts, u.WellFormed) :
    t.piece.Stops (joined ts) ↔ ∀ run, run <+: t :: ts → ¬ Clash run := by
  rw [no_clash_prefix_iff, stops_piece_iff, stopsAt_joined_iff (tells_extendedBy t.kind) h,
    ← Bool.not_eq_true, isFraction_joined_iff h]
  push Not
  rfl

theorem proper_iff_no_clash (h : ∀ t ∈ ts, t.WellFormed) :
    Piece.Proper (ts.map Token.piece) ↔ ∀ run, run <:+: ts → ¬ Clash run := by
  induction ts with
  | nil =>
    refine iff_of_true trivial ?_
    intro run hrun hclash
    obtain rfl := List.infix_nil.mp hrun
    cases hclash
  | cons t ts ih =>
    have hts : ∀ u ∈ ts, u.WellFormed := fun u hu => h u (List.mem_cons_of_mem _ hu)
    have hfits : t.piece.Fits (joined ts) ↔ ∀ run, run <+: t :: ts → ¬ Clash run := by
      rw [← stops_joined_iff t hts]
      exact and_iff_right (h t List.mem_cons_self).shaped
    rw [List.map_cons, Piece.Proper, flatten_text_piece, hfits, ih hts]
    simp only [List.infix_cons_iff, or_imp, forall_and]

end Stopping

/-! ## 6. The law -/

/-- **Which tokens can be written with nothing between them.**  They are read back with their
kinds, lexemes and literals, and an end token behind them, exactly if no neighbours clash; and
then nothing is reported. -/
theorem scan_joined_iff {ts : List Token} (h : ∀ t ∈ ts, t.WellFormed) :
    let scan := Scan.ofSource (joined ts)
    (scan.tokens.map Token.content = ts.map Token.content ++ [(.endOfSource, [], none)] ↔
        ¬ ∃ run, run <:+: ts ∧ Clash run) ∧
      ((¬ ∃ run, run <:+: ts ∧ Clash run) → scan.events = []) := by
  have hproper : Piece.Proper (ts.map Token.piece) ↔ ¬ ∃ run, run <:+: ts ∧ Clash run := by
    rw [proper_iff_no_clash h]
    push Not
    rfl
  refine ⟨(content_scan_iff h).trans hproper, ?_⟩
  intro hclash
  exact events_scan_of_proper h (hproper.mpr hclash)

/-- A point between numbers is kept apart from them if the first one has a fraction.  A comment
that opens by accident and closes inside a string leaves neither operator nor string. -/
theorem scan_joined_fraction_comment :
    (let ts : List Token := [
      ⟨.number, "1.2".toList, some (.number (Decimal.ofNumeral "1.2".toList).round), 0⟩,
      ⟨.operator .dot, ['.'], none, 0⟩,
      ⟨.number, ['3'], some (.number (Decimal.ofNumeral ['3']).round), 0⟩]
     let scan := Scan.ofSource "1.2.3".toList
     scan.tokens.map Token.content = ts.map Token.content ++ [(.endOfSource, [], none)] ∧
      scan.events = []) ∧
    (let ts : List Token := [
      ⟨.operator .slash, ['/'], none, 0⟩, ⟨.operator .star, ['*'], none, 0⟩,
      ⟨.string, "\"*/\"".toList, some (.text "*/".toList), 0⟩]
     (Scan.ofSource "/*\"*/\"".toList).tokens.map Token.content ≠
      ts.map Token.content ++ [(.endOfSource, [], none)]) := by
  constructor
  · intro ts
    have hwell : ∀ t ∈ ts, t.WellFormed := by
      intro t ht
      simp only [ts, List.mem_cons, List.not_mem_nil, or_false] at ht
      rcases ht with rfl | rfl | rfl
      · exact @Token.WellFormed.fraction ['1'] ['2'] (by decide) (List.all_eq_true.mp rfl)
          (by decide) (List.all_eq_true.mp rfl) 0
      · exact .operator .dot 0
      · exact .whole (by decide) (List.all_eq_true.mp rfl) 0
    have hclash : ¬ ∃ run, run <:+: ts ∧ Clash run := by
      rintro ⟨run, hrun, hclash⟩
      cases hclash with
      | pair h =>
        simp only [ts, List.infix_cons_iff, List.cons_prefix_cons, List.nil_prefix, and_true,
          List.prefix_rfl, List.prefix_nil, List.cons_ne_self, and_false, List.infix_nil,
          reduceCtorEq, or_self, or_false] at hrun
        rcases hrun with ⟨rfl, rfl⟩ | ⟨rfl, rfl⟩ <;> exact absurd h (by decide)
      | fraction ha hb hc =>
        simp only [ts, List.infix_cons_iff, List.cons_prefix_cons, List.prefix_rfl, and_true,
          List.prefix_nil, List.cons_ne_self, and_false, reduceCtorEq, List.infix_nil, or_self,
          or_false] at hrun
        obtain ⟨rfl, -, -⟩ := hrun
        exact absurd ha (by decide)
    exact ⟨(scan_joined_iff hwell).1.mpr hclash, (scan_joined_iff hwell).2 hclash⟩
  · intro ts
    have hwell : ∀ t ∈ ts, t.WellFormed := by
      intro t ht
      simp only [ts, List.mem_cons, List.not_mem_nil, or_false] at ht
      rcases ht with rfl | rfl | rfl
      · exact .operator .slash 0
      · exact .operator .star 0
      · exact @Token.WellFormed.string "*/".toList (by decide) 0
    intro hcontent
    refine (scan_joined_iff hwell).1.mp hcontent ⟨ts.take 2, ?_, .pair rfl⟩
    exact (List.take_prefix 2 ts).isInfix

end Loxeme
