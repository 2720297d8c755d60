/-
# Keywords

The words that cannot be identifiers.  A keyword is spelled in lower case and shown under
the same word in upper case.

* `Keyword.ofSpelling?` tells a keyword from an identifier.
* `Keyword.alphabetical` lists the keywords in the order of their spellings, which is not
  the order of their numbers: `fun` is numbered before `for`.
-/
import Loxeme.Text.Basic

namespace Loxeme

/-- The reserved words of the language. -/
inductive Keyword where
  | andWord | classWord | elseWord | falseWord | funWord | forWord | ifWord | nilWord
  | orWord | printWord | returnWord | superWord | thisWord | trueWord | varWord | whileWord
  deriving DecidableEq, Repr

namespace Keyword

/-- All keywords, in the order of their numbers. -/
def all : List Keyword :=
  [.andWord, .classWord, .elseWord, .falseWord, .funWord, .forWord, .ifWord, .nilWord,
    .orWord, .printWord, .returnWord, .superWord, .thisWord, .trueWord, .varWord, .whileWord]

/-- How a keyword is written. -/
def spelling : Keyword → Text
  | andWord => "and".toList
  | classWord => "class".toList
  | elseWord => "else".toList
  | falseWord => "false".toList
  | funWord => "fun".toList
  | forWord => "for".toList
  | ifWord => "if".toList
  | nilWord => "nil".toList
  | orWord => "or".toList
  | printWord => "print".toList
  | returnWord => "return".toList
  | superWord => "super".toList
  | thisWord => "this".toList
  | trueWord => "true".toList
  | varWord => "var".toList
  | whileWord => "while".toList

/-- What a keyword is called. -/
def name (k : Keyword) : Text := k.spelling.map Char.toUpper

/-- The keyword with a given spelling. -/
def ofSpelling? (t : Text) : Option Keyword := all.find? (·.spelling = t)

/-- All keywords, in the order of their spellings. -/
def alphabetical : List Keyword :=
  all.mergeSort fun k k' => !List.lex k'.spelling k.spelling fun c d => c.toNat < d.toNat

theorem mem_all (k : Keyword) : k ∈ all := by cases k <;> decide

theorem ofSpelling?_spelling (k : Keyword) : ofSpelling? k.spelling = some k := by
  cases k <;> rfl

theorem spelling_injective {k k' : Keyword} (h : k.spelling = k'.spelling) : k = k' :=
  Option.some.inj (by rw [← ofSpelling?_spelling k, h, ofSpelling?_spelling])

theorem ofSpelling?_eq_some_iff {t : Text} {k : Keyword} :
    ofSpelling? t = some k ↔ k.spelling = t := by
  constructor
  · intro h
    simpa using List.find?_some h
  · rintro rfl
    exact ofSpelling?_spelling _

end Keyword
end Loxeme
