/-
# Decimal numerals

A decimal is a sign, a coefficient and a power of ten.  This module reads numerals as
decimals and rounds decimals to binary64.

* `Decimal.ofNumeral` reads what a number token may be: digits, optionally a point and more
  digits.
* `Decimal.ofText?` reads the wider form with a sign and an exponent.
* `Decimal.round` is exact: the decimal is a ratio of two natural numbers, and
  `Magnitude.ofRatio` rounds it once.
-/
import Loxeme.Text.Basic
import Loxeme.Number.Binary64

namespace Loxeme

/-- The number `coefficient * 10 ^ exponent`, negated if `negative`. -/
structure Decimal where
  negative : Bool
  coefficient : Nat
  exponent : Int
  deriving DecidableEq, Repr

namespace Decimal

/-! ## 1. Reading -/

/-- The value of decimal digits. -/
def digitsValue (digits : Text) : Nat := Nat.ofDigitChars 10 digits 0

/-- The digits before the point and those after it. -/
def splitPoint (t : Text) : Text × Text :=
  (t.takeWhile Char.isDigit, (t.dropWhile Char.isDigit).tail.takeWhile Char.isDigit)

/-- The number that a numeral of digits, optionally with a point and digits, denotes. -/
def ofNumeral (t : Text) : Decimal :=
  let (whole, fraction) := splitPoint t
  ⟨false, digitsValue (whole ++ fraction), -(fraction.length : Int)⟩

/-- The sign of a text, if one stands in front, and what follows. -/
def splitSign : Text → Bool × Text
  | '-' :: rest => (true, rest)
  | '+' :: rest => (false, rest)
  | t => (false, t)

/-- The exponents past which a coefficient of `digits` places is sure to overflow or to
vanish.  Cutting an exponent there changes no rounded value. -/
def exponentBound (digits : Nat) : Int := 400 + digits

/-- The exponent that a text denotes: a sign, and digits. -/
def exponentOfText? (t : Text) : Option Int :=
  let (negative, digits) := splitSign t
  if digits ≠ [] ∧ digits.all Char.isDigit then
    some (if negative then -(digitsValue digits : Int) else digitsValue digits)
  else none

/-- The number that a text denotes: a sign, digits, a point and digits, and after `e` an
exponent.  All but one run of digits may be missing. -/
def ofText? (t : Text) : Option Decimal := do
  let (negative, body) := splitSign t
  let mantissa := body.takeWhile fun c => c ≠ 'e' && c ≠ 'E'
  let tail := body.drop mantissa.length
  let (whole, fraction) := splitPoint mantissa
  let digits := whole ++ fraction
  guard (digits ≠ [])
  guard (mantissa = whole ∨ mantissa = whole ++ '.' :: fraction)
  let exponent ← if tail = [] then some 0 else exponentOfText? tail.tail
  let bound := exponentBound digits.length
  some ⟨negative, digitsValue digits, max (-bound) (min bound exponent) - fraction.length⟩

/-! ## 2. Rounding -/

/-- The value as a ratio: numerator and denominator of its magnitude. -/
def ratio (d : Decimal) : Nat × Nat :=
  (d.coefficient * Nat.pow 10 d.exponent.toNat, Nat.pow 10 (-d.exponent).toNat)

/-- The binary64 value nearest to a decimal, ties to the even significand. -/
def round (d : Decimal) : Binary64 := ⟨d.negative, .ofRatio d.ratio.1 d.ratio.2⟩

theorem ratio_snd_pos (d : Decimal) : 0 < d.ratio.2 := Nat.pow_pos (by decide)

end Decimal
end Loxeme
