/-
# The shortest decimal of a magnitude

Of the decimals that round to a magnitude, the one to print has the fewest digits; of
several it is the nearest to the magnitude, and of two equally near the one with the even
last digit.

A grid is the set of multiples of a power of ten.  On each grid only the two neighbours of
the magnitude can come into question.  The search starts at the grid on which the magnitude
has one digit and refines it; on the grid of `10 ^ (-1074)` every finite magnitude lies
exactly, so the search ends there at the latest.

* `nearestOnGrid?` is the choice on one grid, and `shortest` the search.
-/
import Loxeme.Number.Decimal

namespace Loxeme.Magnitude

/-! ## 1. One grid -/

/-- The finite magnitude as a multiple of `10 ^ grid`: numerator and denominator. -/
def onGrid (units : Nat) (grid : Int) : Nat × Nat :=
  (units * Nat.pow 10 (-grid).toNat, Nat.pow 2 unitPower * Nat.pow 10 grid.toNat)

/-- The decimal `coefficient * 10 ^ grid` rounds to the magnitude. -/
def readsBack (units : Nat) (grid : Int) (coefficient : Nat) : Bool :=
  (Decimal.mk false coefficient grid).round.magnitude = .finite units

/-- The nearest multiple of `10 ^ grid` that rounds to the magnitude, if there is one; of two
equally near ones the even. -/
def nearestOnGrid? (units : Nat) (grid : Int) : Option Nat :=
  let (num, den) := onGrid units grid
  let below := num / den
  let nearest := roundQuotient num den
  let other := if nearest = below then below + 1 else below
  if readsBack units grid nearest then some nearest
  else if readsBack units grid other then some other
  else none

/-! ## 2. The search -/

/-- The grid on which every finite magnitude lies. -/
def finestGrid : Int := -unitPower

/-- The coefficient of a magnitude on the finest grid. -/
def exactCoefficient (units : Nat) : Nat := units * Nat.pow 5 unitPower

/-- The first hit on the grids from `10 ^ (finestGrid + n)` downwards, where `hit?` says what is
hit on a grid; on the finest grid it is `exact`. -/
def searchFrom (hit? : Int → Option Nat) (exact : Nat) : Nat → Decimal
  | 0 => ⟨false, exact, finestGrid⟩
  | n + 1 =>
    let grid := finestGrid + (n + 1 : Nat)
    match hit? grid with
    | some coefficient => ⟨false, coefficient, grid⟩
    | none => searchFrom hit? exact n

/-- Every positive magnitude is above ten to minus this power. -/
def floorPower : Nat := 324

/-- The number of digits before the point of a magnitude, negative if zeros follow the
point: the least power of ten that is above it. -/
def decimalPlaces (units : Nat) : Int :=
  (Nat.toDigits 10 (units * Nat.pow 10 floorPower / Nat.pow 2 unitPower)).length - floorPower

/-- The shortest decimal of a positive finite magnitude. -/
def shortest (units : Nat) : Decimal :=
  searchFrom (nearestOnGrid? units) (exactCoefficient units)
    (decimalPlaces units - 1 - finestGrid).toNat

end Loxeme.Magnitude
