/-
# Tokens

A token is a kind, the characters it was read from, the value of a string or number, and
the line on which it ends.

* `Token.same` is equality of tokens, with literals compared as values: the two zeros are
  one number, and a number is never a string.
* `Token.display` is the line shown for a token, `Token.debug` the long form that quotes
  every text.
-/
import Loxeme.Kind
import Loxeme.Number.Layout

namespace Loxeme

/-! ## 1. Literals -/

/-- The value that a token carries. -/
inductive Literal where
  | text (value : Text)
  | number (value : Binary64)
  deriving DecidableEq, Repr

namespace Literal

/-- Numbers are laid out positionally while the exponent of their first digit is at least
`-4` and below `16`. -/
def layout : Layout := ⟨-4, 16⟩

/-- Equality of values. -/
def same : Literal → Literal → Bool
  | text t, text u => t = u
  | number x, number y => x.same y
  | _, _ => false

/-- A value as it is shown: a text is shown as it stands. -/
def display : Literal → Text
  | text t => t
  | number x => layout.number x

/-- A value in the long form: a text is quoted. -/
def debug : Literal → Text
  | text t => t.quoted
  | number x => layout.number x

end Literal

/-! ## 2. Tokens -/

/-- A token of the language. -/
structure Token where
  kind : Kind
  lexeme : Text
  literal : Option Literal
  line : Int
  deriving DecidableEq, Repr

namespace Token

/-- The token that ends every token list. -/
def endOn (line : Int) : Token := ⟨.endOfSource, [], none, line⟩

/-- Equality of tokens, with literals compared as values. -/
def same (a b : Token) : Bool :=
  a.kind = b.kind && a.lexeme = b.lexeme && a.line = b.line &&
    match a.literal, b.literal with
    | none, none => true
    | some x, some y => x.same y
    | _, _ => false

/-- What is shown for a token: kind, lexeme and literal, with `nil` for no literal. -/
def display (t : Token) : Text :=
  Text.unwords [t.kind.name, t.lexeme, (t.literal.map Literal.display).getD "nil".toList]

/-- The long form of a token. -/
def debug (t : Token) : Text :=
  "Token(TokenType.".toList ++ t.kind.name ++ ", ".toList ++ t.lexeme.quoted ++ ", ".toList ++
    (t.literal.map Literal.debug).getD "None".toList ++ ", line=".toList ++
    Text.ofInt t.line ++ [')']

end Token
end Loxeme
