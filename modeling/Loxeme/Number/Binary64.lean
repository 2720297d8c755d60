/-
# Binary64 numbers

The values that number literals take: sign and magnitude of the IEEE binary64 format
without its NaNs.  Every finite magnitude of the format is a whole multiple of the smallest
one, `2 ^ (-1074)`, so it is kept as that multiple, and nothing here is approximate.

* `Magnitude.ofRatio` is correct rounding of a ratio of natural numbers: to the nearest
  magnitude, a tie to the even significand, and to infinity from halfway past the largest.
* `Binary64.same` is equality of values, for which the two zeros agree.
-/
namespace Loxeme

/-! ## 1. Magnitudes -/

/-- A magnitude: a whole number of units of `2 ^ (-1074)`, or infinity. -/
inductive Magnitude where
  | finite (units : Nat)
  | infinite
  deriving DecidableEq, Repr

namespace Magnitude

/-- The bits of a significand. -/
def precision : Nat := 53

/-- The smallest positive magnitude is two to minus this power. -/
def unitPower : Nat := 1074

/-- All finite magnitudes are below two to this power. -/
def rangePower : Nat := 1024

/-- How many of the low bits of `units` lie below its significand. -/
def surplus (units : Nat) : Nat := units.log2 + 1 - precision

/-- The whole number nearest to `num / den`, of two the even one. -/
def roundQuotient (num den : Nat) : Nat :=
  let quotient := num / den
  let twice := 2 * (num % den)
  if twice < den ∨ twice = den ∧ quotient % 2 = 0 then quotient else quotient + 1

/-- The magnitude nearest to `num / den`, of two the one with the even significand. -/
def ofRatio (num den : Nat) : Magnitude :=
  let scaled := num * Nat.pow 2 unitPower
  let step := Nat.pow 2 (surplus (scaled / den))
  let units := roundQuotient scaled (den * step) * step
  if units < Nat.pow 2 (rangePower + unitPower) then .finite units else .infinite

/-- Rounding moves by less than one. -/
theorem roundQuotient_eq_or (num den : Nat) :
    roundQuotient num den = num / den ∨ roundQuotient num den = num / den + 1 := by
  unfold roundQuotient
  dsimp only
  split
  · exact Or.inl rfl
  · exact Or.inr rfl

end Magnitude

/-! ## 2. Signed values -/

/-- A binary64 value other than NaN. -/
structure Binary64 where
  negative : Bool
  magnitude : Magnitude
  deriving DecidableEq, Repr

namespace Binary64

/-- Equality of values: the two zeros are the same. -/
def same (x y : Binary64) : Bool :=
  x.magnitude = y.magnitude && (x.negative = y.negative || x.magnitude = .finite 0)

theorem same_iff {x y : Binary64} :
    x.same y ↔
      x.magnitude = y.magnitude ∧ (x.negative = y.negative ∨ x.magnitude = .finite 0) := by
  simp [same]

@[simp] theorem same_self (x : Binary64) : x.same x := by simp [same_iff]

theorem same_comm (x y : Binary64) : x.same y ↔ y.same x := by
  simp only [same_iff]
  constructor
  · rintro ⟨h, hs⟩; exact ⟨h.symm, hs.imp Eq.symm (h ▸ ·)⟩
  · rintro ⟨h, hs⟩; exact ⟨h.symm, hs.imp Eq.symm (h ▸ ·)⟩

end Binary64
end Loxeme
