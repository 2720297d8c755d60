/-
# The pieces of a source

A source is cut into pieces from left to right: operators, words, numbers, strings, blanks
and comments, and single characters that belong to nothing.  Each piece has a role and is as
long as its role allows, so the pieces of a source are its characters again, in order.

* `Piece.first` reads one piece, and `text_first_append` says that it splits the source.
* `pieces` reads all of them; `flatten_text_pieces` says that nothing is lost.
* `Piece.token?` and `Piece.event?` say what a piece amounts to on a line.
-/
import Loxeme.Token
import Loxeme.Event

namespace Loxeme

/-! ## 1. Roles -/

/-- What a piece of a source is. -/
inductive Role where
  | operator (o : Operator)
  | word
  | number
  | string
  | openString
  | blank
  | lineComment
  | blockComment
  | openComment
  | unexpected
  deriving DecidableEq, Repr

/-- Some characters that stand together in a source, and what they are. -/
structure Piece where
  role : Role
  text : Text
  deriving DecidableEq, Repr

/-- A character that starts a word. -/
def isWordStart (c : Char) : Bool := c.isAlpha || c = '_'

/-- A character that continues a word. -/
def isWordPart (c : Char) : Bool := c.isAlphanum || c = '_'

/-- A character that only separates. -/
def isBlank (c : Char) : Bool := c = ' ' || c = '\t' || c = '\r' || c = '\n'

namespace Piece

/-! ## 2. Reading one piece -/

/-- The characters through the first `*/`, and those after it. -/
def splitClose : Text → Option (Text × Text)
  | [] => none
  | '*' :: '/' :: rest => some (['*', '/'], rest)
  | c :: rest => (splitClose rest).map fun (body, after) => (c :: body, after)

/-- After a slash: a comment, or the operator. -/
def afterSlash : Text → Piece × Text
  | '/' :: rest =>
    (⟨.lineComment, '/' :: '/' :: rest.takeWhile (· ≠ '\n')⟩, rest.dropWhile (· ≠ '\n'))
  | '*' :: rest =>
    match splitClose rest with
    | some (body, after) => (⟨.blockComment, '/' :: '*' :: body⟩, after)
    | none => (⟨.openComment, '/' :: '*' :: rest⟩, [])
  | rest => (⟨.operator .slash, ['/']⟩, rest)

/-- After a double quote: a string, which is left open if no quote follows. -/
def afterQuote (rest : Text) : Piece × Text :=
  let body := rest.takeWhile (· ≠ '"')
  match rest.dropWhile (· ≠ '"') with
  | [] => (⟨.openString, '"' :: body⟩, [])
  | quote :: after => (⟨.string, '"' :: body ++ [quote]⟩, after)

/-- After a digit: more digits, and a point if a digit follows it. -/
def afterDigit (c : Char) (rest : Text) : Piece × Text :=
  let whole := c :: rest.takeWhile Char.isDigit
  let after := rest.dropWhile Char.isDigit
  match after with
  | '.' :: d :: tail =>
    if d.isDigit then
      (⟨.number, whole ++ '.' :: d :: tail.takeWhile Char.isDigit⟩, tail.dropWhile Char.isDigit)
    else (⟨.number, whole⟩, after)
  | _ => (⟨.number, whole⟩, after)

/-- After the start of a word. -/
def afterLetter (c : Char) (rest : Text) : Piece × Text :=
  (⟨.word, c :: rest.takeWhile isWordPart⟩, rest.dropWhile isWordPart)

/-- An operator of two characters, if there is one. -/
def doubleOperator? (c : Char) : Text → Option (Piece × Text)
  | [] => none
  | d :: rest => (Operator.ofSpelling? [c, d]).map fun o => (⟨.operator o, [c, d]⟩, rest)

/-- An operator of one character, if it is one. -/
def singleOperator? (c : Char) (rest : Text) : Option (Piece × Text) :=
  (Operator.ofSpelling? [c]).map fun o => (⟨.operator o, [c]⟩, rest)

/-- The piece that starts with `c`, and the characters after it. -/
def first (c : Char) (rest : Text) : Piece × Text :=
  if c = '/' then afterSlash rest
  else if c = '"' then afterQuote rest
  else if c.isDigit then afterDigit c rest
  else if isWordStart c then afterLetter c rest
  else if isBlank c then (⟨.blank, [c]⟩, rest)
  else
    (doubleOperator? c rest).getD <| (singleOperator? c rest).getD (⟨.unexpected, [c]⟩, rest)

/-! ## 3. A piece and what follows it make up the source -/

theorem append_of_splitClose {t body after : Text} (h : splitClose t = some (body, after)) :
    body ++ after = t := by
  fun_induction splitClose t generalizing body after with
  | case1 => simp at h
  | case2 rest => simp at h; obtain ⟨rfl, rfl⟩ := h; rfl
  | case3 c rest _ ih =>
    simp only [Option.map_eq_some_iff, Prod.mk.injEq, Prod.exists] at h
    obtain ⟨b, a, hba, rfl, rfl⟩ := h
    simp [ih hba]

theorem text_afterSlash_append (rest : Text) :
    (afterSlash rest).1.text ++ (afterSlash rest).2 = '/' :: rest := by
  unfold afterSlash
  split
  · simp
  · split
    · rename_i h; simp [append_of_splitClose h]
    · simp
  · simp

theorem text_afterQuote_append (rest : Text) :
    (afterQuote rest).1.text ++ (afterQuote rest).2 = '"' :: rest := by
  have hsplit := List.takeWhile_append_dropWhile (p := fun c => decide (c ≠ '"')) (l := rest)
  unfold afterQuote
  dsimp only
  split <;> rename_i h <;> rw [h] at hsplit <;> simpa using hsplit

theorem text_afterDigit_append (c : Char) (rest : Text) :
    (afterDigit c rest).1.text ++ (afterDigit c rest).2 = c :: rest := by
  have hsplit := List.takeWhile_append_dropWhile (p := Char.isDigit) (l := rest)
  unfold afterDigit
  dsimp only
  split
  · rename_i d tail h
    rw [h] at hsplit
    split
    · simpa using hsplit
    · simpa [h] using hsplit
  · simp

theorem text_afterLetter_append (c : Char) (rest : Text) :
    (afterLetter c rest).1.text ++ (afterLetter c rest).2 = c :: rest := by
  simp [afterLetter]

theorem text_append_of_doubleOperator? {c : Char} {rest : Text} {r : Piece × Text}
    (h : doubleOperator? c rest = some r) : r.1.text ++ r.2 = c :: rest := by
  cases rest with
  | nil => simp [doubleOperator?] at h
  | cons d rest =>
    simp only [doubleOperator?, Option.map_eq_some_iff] at h
    obtain ⟨o, _, rfl⟩ := h
    rfl

theorem text_append_of_singleOperator? {c : Char} {rest : Text} {r : Piece × Text}
    (h : singleOperator? c rest = some r) : r.1.text ++ r.2 = c :: rest := by
  simp only [singleOperator?, Option.map_eq_some_iff] at h
  obtain ⟨o, _, rfl⟩ := h
  rfl

/-- **A piece splits the source.**  Its text and what follows it are the source again. -/
theorem text_first_append (c : Char) (rest : Text) :
    (first c rest).1.text ++ (first c rest).2 = c :: rest := by
  unfold first
  split
  · rename_i h; subst h; exact text_afterSlash_append rest
  split
  · rename_i h; subst h; exact text_afterQuote_append rest
  split
  · exact text_afterDigit_append c rest
  split
  · exact text_afterLetter_append c rest
  split
  · rfl
  · cases hd : doubleOperator? c rest with
    | some r => exact text_append_of_doubleOperator? hd
    | none =>
      cases hs : singleOperator? c rest with
      | some r => exact text_append_of_singleOperator? hs
      | none => rfl

theorem text_afterSlash_ne_nil (rest : Text) : (afterSlash rest).1.text ≠ [] := by
  unfold afterSlash
  split
  · simp
  · split
    · simp
    · simp
  · simp

theorem text_afterQuote_ne_nil (rest : Text) : (afterQuote rest).1.text ≠ [] := by
  unfold afterQuote
  dsimp only
  split
  · simp
  · simp

theorem text_afterDigit_ne_nil (c : Char) (rest : Text) : (afterDigit c rest).1.text ≠ [] := by
  unfold afterDigit
  dsimp only
  split
  · split
    · simp
    · simp
  · simp

/-- A piece has at least the character that it starts with. -/
theorem text_first_ne_nil (c : Char) (rest : Text) : (first c rest).1.text ≠ [] := by
  unfold first
  split
  · exact text_afterSlash_ne_nil rest
  split
  · exact text_afterQuote_ne_nil rest
  split
  · exact text_afterDigit_ne_nil c rest
  split
  · simp [afterLetter]
  split
  · simp
  · cases rest with
    | nil => simp [doubleOperator?, singleOperator?]; cases Operator.ofSpelling? [c] <;> simp
    | cons d rest =>
      simp only [doubleOperator?, singleOperator?]
      cases Operator.ofSpelling? [c, d] <;> cases Operator.ofSpelling? [c] <;> simp

theorem length_first_le (c : Char) (rest : Text) : (first c rest).2.length ≤ rest.length := by
  have hlen := congrArg List.length (text_first_append c rest)
  have hpos := List.length_pos_iff.mpr (text_first_ne_nil c rest)
  simp only [List.length_append, List.length_cons] at hlen
  omega

end Piece

/-! ## 4. All pieces -/

/-- The pieces of a source, in order. -/
def pieces : Text → List Piece
  | [] => []
  | c :: rest => (Piece.first c rest).1 :: pieces (Piece.first c rest).2
termination_by t => t.length
decreasing_by
  have := Piece.length_first_le c rest
  simp only [List.length_cons]; omega

@[simp] theorem pieces_nil : pieces [] = [] := by simp [pieces]

theorem pieces_cons (c : Char) (rest : Text) :
    pieces (c :: rest) = (Piece.first c rest).1 :: pieces (Piece.first c rest).2 := by
  rw [pieces]

/-- **Nothing is lost.**  The texts of the pieces of a source are the source. -/
theorem flatten_text_pieces (t : Text) : ((pieces t).map Piece.text).flatten = t := by
  fun_induction pieces t with
  | case1 => rfl
  | case2 c rest ih => simp [ih, Piece.text_first_append]

/-! ## 5. What a piece amounts to -/

namespace Piece

/-- The text between the quotes of a string. -/
def stringBody (t : Text) : Text := t.tail.dropLast

/-- The token of a piece that ends on `line`, if it is one. -/
def token? (p : Piece) (line : Int) : Option Token :=
  match p.role with
  | .operator o => some ⟨.operator o, p.text, none, line⟩
  | .word => some ⟨Kind.ofWord p.text, p.text, none, line⟩
  | .number => some ⟨.number, p.text, some (.number (Decimal.ofNumeral p.text).round), line⟩
  | .string => some ⟨.string, p.text, some (.text (stringBody p.text)), line⟩
  | _ => none

/-- The event of a piece that starts on `line`, if it is worth one.  A diagnostic belongs to
the line on which the piece ends, a comment that is never closed to the line on which it
starts. -/
def event? (p : Piece) (line : Int) : Option Event :=
  match p.role with
  | .openString => some (.reported (.ofFault (line + p.text.newlines) .unterminatedString))
  | .unexpected => p.text.head?.map fun c => .reported (.ofFault line (.unexpected c))
  | .blockComment => some (.skippedComment p.text)
  | .openComment => some (.neverClosed line)
  | _ => none

end Piece
end Loxeme
