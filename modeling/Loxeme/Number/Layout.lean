/-
# The text of a number

How digits and a power of ten are laid out: with a point at its place while the power is
moderate, in scientific notation beyond.  What counts as moderate is a `Layout`; the rest is
the same for all of them.

* A positional text always has a digit on each side of the point.
* A scientific text has its point after the first digit, or none if there is only one, and
  an exponent with its sign and at least two digits.
-/
import Loxeme.Number.Shortest

namespace Loxeme

/-- The exponents of the first digit that are written positionally: from `lowest` up to, not
including, `limit`. -/
structure Layout where
  lowest : Int
  limit : Int
  deriving DecidableEq, Repr

namespace Layout

/-- A run of zeros. -/
def zeros (n : Nat) : Text := List.replicate n '0'

/-- `0.ddd` or `ddd.ddd`: the first digit has the given exponent. -/
def positional (digits : Text) (exponent : Int) : Text :=
  if exponent < 0 then "0.".toList ++ zeros (-exponent - 1).toNat ++ digits
  else
    let whole := exponent.toNat + 1
    let fraction := digits.drop whole
    digits.take whole ++ zeros (whole - digits.length) ++
      '.' :: (if fraction = [] then ['0'] else fraction)

/-- `d.ddde+XX`: the first digit has the given exponent. -/
def scientific (digits : Text) (exponent : Int) : Text :=
  let fraction := digits.drop 1
  let power := Text.ofNat exponent.natAbs
  digits.take 1 ++ (if fraction = [] then [] else '.' :: fraction) ++
    ['e', if exponent < 0 then '-' else '+'] ++ zeros (2 - power.length) ++ power

/-- Digits without the zeros at their end. -/
def stripZeros (digits : Text) : Text := (digits.reverse.dropWhile (· = '0')).reverse

/-- The text of a decimal with a positive coefficient, its sign apart. -/
def decimal (l : Layout) (d : Decimal) : Text :=
  let digits := Text.ofNat d.coefficient
  let exponent := d.exponent + digits.length - 1
  if l.lowest ≤ exponent ∧ exponent < l.limit then positional (stripZeros digits) exponent
  else scientific (stripZeros digits) exponent

/-- The text of a magnitude: its shortest decimal, or the word for infinity. -/
def magnitude (l : Layout) : Magnitude → Text
  | .infinite => "inf".toList
  | .finite 0 => "0.0".toList
  | .finite units => l.decimal (Magnitude.shortest units)

/-- The text of a number. -/
def number (l : Layout) (x : Binary64) : Text :=
  (if x.negative then ['-'] else []) ++ l.magnitude x.magnitude

end Layout
end Loxeme
