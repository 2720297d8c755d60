/-
# Texts

A text is a list of Unicode characters, and every offset counts characters.  The library
works on lists because its laws are laws of lists; strings appear only where a text enters
or leaves the program.

* `Text.newlines` counts the line breaks, and is additive over concatenation.
* `Text.ofInt` writes an integer in decimal.
-/
namespace Loxeme

/-- A text: its characters in order. -/
abbrev Text := List Char

namespace Text

/-! ## 1. Line breaks -/

/-- The number of newlines in a text.  No other character ends a line. -/
def newlines (t : Text) : Nat := t.count '\n'

@[simp] theorem newlines_nil : newlines [] = 0 := rfl

@[simp] theorem newlines_cons (c : Char) (t : Text) :
    newlines (c :: t) = newlines t + if c = '\n' then 1 else 0 := by
  simp [newlines, List.count_cons]

@[simp] theorem newlines_append (t u : Text) : newlines (t ++ u) = newlines t + newlines u := by
  simp [newlines]

/-! ## 2. Numbers and words as texts -/

/-- A natural number in decimal. -/
def ofNat (n : Nat) : Text := Nat.toDigits 10 n

/-- An integer in decimal, with a minus sign if it is negative. -/
def ofInt : Int → Text
  | .ofNat n => ofNat n
  | .negSucc n => '-' :: ofNat (n + 1)

/-- The texts in order, one blank between neighbours. -/
def unwords (ts : List Text) : Text := List.intercalate [' '] ts

/-- The text and the newline that ends it. -/
def line (t : Text) : Text := t ++ ['\n']

/-- The pieces between the separators, empty ones included. -/
def splitAt (separator : Char) : Text → List Text
  | [] => [[]]
  | c :: rest =>
    if c = separator then [] :: splitAt separator rest
    else
      match splitAt separator rest with
      | [] => [[c]]
      | piece :: pieces => (c :: piece) :: pieces

end Text
end Loxeme
