/-
# Operators

The tokens with one spelling made of punctuation.  Each operator has the spelling that it
is recognised by and the name that it is shown under.

* `Operator.ofSpelling?` finds the operator with a given spelling; `spelling_injective` says
  that there is at most one.
-/
import Loxeme.Text.Basic

namespace Loxeme

/-- The punctuation of the language. -/
inductive Operator where
  | leftParen | rightParen | leftBrace | rightBrace
  | comma | dot | minus | plus | semicolon | slash | star
  | bang | bangEqual | equal | equalEqual
  | greater | greaterEqual | less | lessEqual
  deriving DecidableEq, Repr

namespace Operator

/-- All operators, in the order of their numbers. -/
def all : List Operator :=
  [.leftParen, .rightParen, .leftBrace, .rightBrace,
    .comma, .dot, .minus, .plus, .semicolon, .slash, .star,
    .bang, .bangEqual, .equal, .equalEqual,
    .greater, .greaterEqual, .less, .lessEqual]

/-- How an operator is written. -/
def spelling : Operator → Text
  | leftParen => ['(']
  | rightParen => [')']
  | leftBrace => ['\x7b']
  | rightBrace => ['\x7d']
  | comma => [',']
  | dot => ['.']
  | minus => ['-']
  | plus => ['+']
  | semicolon => [';']
  | slash => ['/']
  | star => ['*']
  | bang => ['!']
  | bangEqual => ['!', '=']
  | equal => ['=']
  | equalEqual => ['=', '=']
  | greater => ['>']
  | greaterEqual => ['>', '=']
  | less => ['<']
  | lessEqual => ['<', '=']

/-- What an operator is called. -/
def name : Operator → Text
  | leftParen => "LEFT_PAREN".toList
  | rightParen => "RIGHT_PAREN".toList
  | leftBrace => "LEFT_BRACE".toList
  | rightBrace => "RIGHT_BRACE".toList
  | comma => "COMMA".toList
  | dot => "DOT".toList
  | minus => "MINUS".toList
  | plus => "PLUS".toList
  | semicolon => "SEMICOLON".toList
  | slash => "SLASH".toList
  | star => "STAR".toList
  | bang => "BANG".toList
  | bangEqual => "BANG_EQUAL".toList
  | equal => "EQUAL".toList
  | equalEqual => "EQUAL_EQUAL".toList
  | greater => "GREATER".toList
  | greaterEqual => "GREATER_EQUAL".toList
  | less => "LESS".toList
  | lessEqual => "LESS_EQUAL".toList

/-- The operator with a given spelling. -/
def ofSpelling? (t : Text) : Option Operator := all.find? (·.spelling = t)

theorem mem_all (o : Operator) : o ∈ all := by cases o <;> decide

theorem ofSpelling?_spelling (o : Operator) : ofSpelling? o.spelling = some o := by
  cases o <;> rfl

theorem spelling_injective {o o' : Operator} (h : o.spelling = o'.spelling) : o = o' :=
  Option.some.inj (by rw [← ofSpelling?_spelling o, h, ofSpelling?_spelling])

theorem ofSpelling?_eq_some_iff {t : Text} {o : Operator} :
    ofSpelling? t = some o ↔ o.spelling = t := by
  constructor
  · intro h
    simpa using List.find?_some h
  · rintro rfl
    exact ofSpelling?_spelling _

end Operator
end Loxeme
