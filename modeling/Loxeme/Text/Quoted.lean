/-
# Quoted texts

How a text is shown inside a message: between quotes, on one line, with everything that
cannot be seen written as an escape.

* The quote is `'`, unless the text holds `'` and no `"`, when it is `"`.
* The backslash and the quote in use take a backslash; tab, newline and carriage return have
  their letters; any other character that is not printable is written in lower-case
  hexadecimal, with two, four or eight places by its size.

The escapes of two different characters are different, and none holds a newline, so a
message that quotes a text stays on its line.
-/
import Loxeme.Text.Printable

namespace Loxeme.Text

/-! ## 1. Escapes -/

/-- A number in hexadecimal, padded with zeros to at least `width` places. -/
def hex (width n : Nat) : Text :=
  let digits := Nat.toDigits 16 n
  List.replicate (width - digits.length) '0' ++ digits

/-- The escape of a character that is not printable. -/
def codeEscape (c : Char) : Text :=
  if c.toNat < 0x100 then "\\x".toList ++ hex 2 c.toNat
  else if c.toNat < 0x10000 then "\\u".toList ++ hex 4 c.toNat
  else "\\U".toList ++ hex 8 c.toNat

/-- A character as it stands between two `quote`s. -/
def escape (quote c : Char) : Text :=
  if c = '\\' ∨ c = quote then ['\\', c]
  else if c = '\t' then "\\t".toList
  else if c = '\n' then "\\n".toList
  else if c = '\r' then "\\r".toList
  else if isPrintable c then [c]
  else codeEscape c

/-! ## 2. Quoting -/

/-- The quote that a text is put between. -/
def quoteFor (t : Text) : Char :=
  if t.contains '\x27' && !t.contains '"' then '"' else '\x27'

/-- The text between quotes, escaped. -/
def quoted (t : Text) : Text :=
  let quote := quoteFor t
  quote :: t.flatMap (escape quote) ++ [quote]

end Loxeme.Text
