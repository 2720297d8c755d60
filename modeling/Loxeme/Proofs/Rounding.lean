/-
# Rounding

What it means that a rational number rounds to a value of the binary64 format, and that
`Magnitude.ofRatio` rounds so.  Of the values of the format the nearest is taken, and of two nearest
ones the one with the even significand; a ratio from halfway past the largest finite value on is
infinite.

Around a ratio there are two neighbours: values of the format with none between them
(`Neighbours`), of which one has an even significand.  All other values are farther away, so the
ratio rounds to one of the two, and it is told which one by the remainder of a division.

* `RoundsTo` is correct rounding, `Neighbours.roundsTo_unique` says that it leaves no choice.
* `neighbours` lists the neighbours: multiples of a power of two that is small enough for their
  significands to have all bits.
* `RoundsTo.between`: what rounds to one value has no gaps.
* `ofRatio_eq_finite_iff` and `ofRatio_eq_infinite_iff` say what `ofRatio` answers.
-/
import Loxeme.Number.Decimal
import Mathlib.Algebra.Order.Field.Rat
import Mathlib.Algebra.Order.Field.Power
import Mathlib.Tactic.FieldSimp
import Mathlib.Tactic.Linarith
import Mathlib.Tactic.Ring

namespace Loxeme.Magnitude

/-! ## 1. Values of the format -/

/-- A value of the format: a significand of 53 bits and a power of two that is not below the
smallest.  There is no largest one here. -/
def IsValue (x : ℚ) : Prop := ∃ (m : ℕ) (e : ℤ), m < 2 ^ 53 ∧ -1074 ≤ e ∧ x = m * 2 ^ e

/-- The significand of the value is even, when it is written with all its bits or with the smallest
power of two. -/
def IsEven (x : ℚ) : Prop :=
  ∃ (m : ℕ) (e : ℤ), m < 2 ^ 53 ∧ -1074 ≤ e ∧ (e = -1074 ∨ 2 ^ 52 ≤ m) ∧ x = m * 2 ^ e ∧ m % 2 = 0

/-- **Correct rounding**: to the nearest value, of two to the even one. -/
structure RoundsTo (v x : ℚ) : Prop where
  isValue : IsValue x
  nearest : ∀ y, IsValue y → |v - x| ≤ |v - y|
  even : ∀ y, IsValue y → y ≠ x → |v - y| = |v - x| → IsEven x

/-- The value of a number of units. -/
def value (units : ℕ) : ℚ := units / 2 ^ unitPower

section Value

variable {m k u w : ℕ}

theorem value_mul_pow (m k : ℕ) : value (m * 2 ^ k) = m * 2 ^ ((k : ℤ) - 1074) := by
  have hpower : (1074 : ℤ) = (unitPower : ℕ) := rfl
  rw [value, hpower, zpow_sub₀ (by norm_num), zpow_natCast, zpow_natCast, Nat.cast_mul,
    Nat.cast_pow]
  exact mul_div_assoc ..

@[simp] theorem value_zero : value 0 = 0 := by
  rw [value, Nat.cast_zero, zero_div]

theorem value_lt_iff : value u < value w ↔ u < w := by
  rw [value, value, div_lt_div_iff_of_pos_right (by positivity), Nat.cast_lt]

theorem value_le_iff : value u ≤ value w ↔ u ≤ w := by
  rw [value, value, div_le_div_iff_of_pos_right (by positivity), Nat.cast_le]

theorem value_pos (hu : 0 < u) : 0 < value u := by
  rwa [← value_zero, value_lt_iff]

theorem value_inj : value u = value w ↔ u = w := by
  rw [le_antisymm_iff, value_le_iff, value_le_iff, ← le_antisymm_iff]

/-- Values of the format are whole numbers of units. -/
theorem isValue_iff {x : ℚ} : IsValue x ↔ ∃ m k : ℕ, m < 2 ^ 53 ∧ x = value (m * 2 ^ k) := by
  constructor
  · rintro ⟨m, e, hm, he, rfl⟩
    obtain ⟨k, rfl⟩ : ∃ k : ℕ, e = k - 1074 := ⟨(e + 1074).toNat, by omega⟩
    exact ⟨m, k, hm, (value_mul_pow m k).symm⟩
  · rintro ⟨m, k, hm, rfl⟩
    exact ⟨m, k - 1074, hm, by omega, value_mul_pow m k⟩

theorem isValue_zero : IsValue 0 := ⟨0, 0, by norm_num, by norm_num, by norm_num⟩

/-- Written with all its bits or in the smallest units, a value has one significand. -/
theorem significand_unique (hm : m < 2 ^ 53) (hk : k = 0 ∨ 2 ^ 52 ≤ m) {m' k' : ℕ}
    (hm' : m' < 2 ^ 53) (hk' : k' = 0 ∨ 2 ^ 52 ≤ m') (h : m * 2 ^ k = m' * 2 ^ k') : m = m' := by
  have hlt : ∀ {m k m' k' : ℕ}, m < 2 ^ 53 → (k' = 0 ∨ 2 ^ 52 ≤ m') →
      m * 2 ^ k = m' * 2 ^ k' → k' ≤ k := by
    intro m k m' k' hm hk' h
    by_contra hkk
    obtain ⟨j, rfl⟩ : ∃ j, k' = k + 1 + j := ⟨k' - k - 1, by omega⟩
    have hfull : 2 ^ 52 ≤ m' := hk'.resolve_left (by omega)
    have hcancel : m = m' * 2 ^ j * 2 := by
      refine Nat.eq_of_mul_eq_mul_right (Nat.two_pow_pos k) ?_
      rw [h]
      ring
    have := Nat.le_mul_of_pos_right m' (Nat.two_pow_pos j)
    omega
  obtain rfl : k = k' := le_antisymm (hlt hm' hk h.symm) (hlt hm hk' h)
  exact Nat.eq_of_mul_eq_mul_right (Nat.two_pow_pos k) h

theorem isEven_iff (hm : m < 2 ^ 53) (hk : k = 0 ∨ 2 ^ 52 ≤ m) :
    IsEven (value (m * 2 ^ k)) ↔ m % 2 = 0 := by
  constructor
  · rintro ⟨m', e, hm', he, hfull, heq, heven⟩
    obtain ⟨k', rfl⟩ : ∃ k' : ℕ, e = k' - 1074 := ⟨(e + 1074).toNat, by omega⟩
    rw [← value_mul_pow, value_inj] at heq
    rwa [significand_unique hm hk hm' (hfull.imp_left (by omega)) heq]
  · intro heven
    exact ⟨m, k - 1074, hm, by omega, hk.imp_left (by omega), value_mul_pow m k, heven⟩

end Value

/-! ## 2. Neighbours -/

/-- Two values of the format with none between them.  One of them is even. -/
structure Neighbours (lo hi : ℚ) : Prop where
  isValue_lo : IsValue lo
  isValue_hi : IsValue hi
  apart : ∀ y, IsValue y → y ≤ lo ∨ hi ≤ y
  isEven_hi : IsEven hi ↔ ¬ IsEven lo

/-- **Neighbours are multiples of a power of two** that is the smallest one, or leaves the lower of
them all its bits. -/
theorem neighbours {m k : ℕ} (hm : m < 2 ^ 53) (hk : k = 0 ∨ 2 ^ 52 ≤ m) :
    Neighbours (value (m * 2 ^ k)) (value ((m + 1) * 2 ^ k)) := by
  -- behind the largest significand comes the smallest one, with twice the power
  have hcarry : m + 1 = 2 ^ 53 → (m + 1) * 2 ^ k = 2 ^ 52 * 2 ^ (k + 1) := by
    intro hlast
    rw [hlast]
    ring
  have hnext : m + 1 < 2 ^ 53 ∨ m + 1 = 2 ^ 53 := by omega
  refine ⟨isValue_iff.mpr ⟨m, k, hm, rfl⟩, ?_, ?_, ?_⟩
  · rcases hnext with hlt | hlast
    · exact isValue_iff.mpr ⟨m + 1, k, hlt, rfl⟩
    · exact isValue_iff.mpr ⟨2 ^ 52, k + 1, by norm_num, by rw [hcarry hlast]⟩
  · intro y hy
    obtain ⟨n, j, hn, rfl⟩ := isValue_iff.mp hy
    rw [value_le_iff, value_le_iff]
    by_cases hjk : k ≤ j
    · obtain ⟨i, rfl⟩ := Nat.exists_eq_add_of_le hjk
      have hmul : n * 2 ^ (k + i) = n * 2 ^ i * 2 ^ k := by ring
      rw [hmul]
      rcases Nat.lt_or_ge m (n * 2 ^ i) with hlt | hge
      · exact Or.inr (Nat.mul_le_mul_right _ hlt)
      · exact Or.inl (Nat.mul_le_mul_right _ hge)
    · -- smaller powers are for smaller values only
      left
      obtain ⟨i, rfl⟩ : ∃ i, k = j + 1 + i := ⟨k - j - 1, by omega⟩
      have hfull : 2 ^ 52 ≤ m := hk.resolve_left (by omega)
      calc n * 2 ^ j ≤ m * 2 * 2 ^ j := Nat.mul_le_mul_right _ (by omega)
        _ = m * 2 ^ (j + 1) := by ring
        _ ≤ m * 2 ^ (j + 1 + i) :=
          Nat.mul_le_mul_left _ (Nat.pow_le_pow_right (by norm_num) (by omega))
  · rw [isEven_iff hm hk]
    rcases hnext with hlt | hlast
    · rw [isEven_iff hlt (hk.imp_right (by omega))]
      omega
    · rw [hcarry hlast, isEven_iff (by norm_num) (Or.inr le_rfl)]
      omega

section Between

variable {a b lo hi v x y : ℚ}

/-- When all other values are farther away than one of `a` and `b`, only `b` can keep a ratio from
rounding to `a`. -/
theorem roundsTo_iff_of_far (ha : IsValue a) (hb : IsValue b) (hab : b ≠ a)
    (hfar : ∀ y, IsValue y → y ≠ a → y ≠ b → |v - a| < |v - y| ∨ |v - b| < |v - y|) :
    RoundsTo v a ↔ |v - a| < |v - b| ∨ |v - a| = |v - b| ∧ IsEven a := by
  constructor
  · intro h
    rcases (h.nearest b hb).lt_or_eq with hlt | heq
    · exact Or.inl hlt
    · exact Or.inr ⟨heq, h.even b hb hab heq.symm⟩
  · intro h
    have hle : |v - a| ≤ |v - b| := h.elim le_of_lt fun h => h.1.le
    refine ⟨ha, ?_, ?_⟩
    · intro y hy
      by_cases hya : y = a
      · rw [hya]
      by_cases hyb : y = b
      · rwa [hyb]
      rcases hfar y hy hya hyb with hlt | hlt
      · exact hlt.le
      · exact hle.trans hlt.le
    · intro y hy hya heq
      by_cases hyb : y = b
      · subst hyb
        exact (h.resolve_left (not_lt.mpr heq.le)).2
      rcases hfar y hy hya hyb with hlt | hlt
      · exact absurd heq hlt.ne'
      · exact absurd heq (hle.trans_lt hlt).ne'

namespace Neighbours

theorem lo_ne_hi (h : Neighbours lo hi) : lo ≠ hi := by
  intro heq
  have hparity := h.isEven_hi
  rw [heq] at hparity
  exact (iff_not_self hparity).elim

variable (h : Neighbours lo hi) (hlo : lo ≤ v) (hhi : v < hi)
include h hlo hhi

/-- All other values are farther away than the neighbour on their side. -/
theorem far (hy : IsValue y) (hyl : y ≠ lo) (hyh : y ≠ hi) :
    |v - lo| < |v - y| ∨ |v - hi| < |v - y| := by
  rw [abs_of_nonneg (sub_nonneg.mpr hlo), abs_sub_comm v hi, abs_of_pos (sub_pos.mpr hhi)]
  rcases h.apart y hy with hle | hge
  · left
    have hlt := lt_of_le_of_ne hle hyl
    rw [abs_of_pos (by linarith)]
    linarith
  · right
    have hlt := lt_of_le_of_ne hge (Ne.symm hyh)
    rw [abs_sub_comm, abs_of_pos (by linarith)]
    linarith

theorem roundsTo_lo_iff :
    RoundsTo v lo ↔ v - lo < hi - v ∨ v - lo = hi - v ∧ IsEven lo := by
  rw [roundsTo_iff_of_far h.isValue_lo h.isValue_hi h.lo_ne_hi.symm
    fun y hy => h.far hlo hhi hy, abs_of_nonneg (sub_nonneg.mpr hlo), abs_sub_comm v hi,
    abs_of_pos (sub_pos.mpr hhi)]

theorem roundsTo_hi_iff :
    RoundsTo v hi ↔ hi - v < v - lo ∨ hi - v = v - lo ∧ IsEven hi := by
  rw [roundsTo_iff_of_far h.isValue_hi h.isValue_lo h.lo_ne_hi
    fun y hy hyh hyl => (h.far hlo hhi hy hyl hyh).symm, abs_of_nonneg (sub_nonneg.mpr hlo),
    abs_sub_comm v hi, abs_of_pos (sub_pos.mpr hhi)]

/-- **A ratio rounds to one of its neighbours.** -/
theorem eq_of_roundsTo (hx : RoundsTo v x) : x = lo ∨ x = hi := by
  by_contra hne
  rw [not_or] at hne
  rcases h.far hlo hhi hx.isValue hne.1 hne.2 with hlt | hlt
  · exact absurd (hx.nearest lo h.isValue_lo) (not_le.mpr hlt)
  · exact absurd (hx.nearest hi h.isValue_hi) (not_le.mpr hlt)

theorem roundsTo_or : RoundsTo v lo ∨ RoundsTo v hi := by
  rw [h.roundsTo_lo_iff hlo hhi, h.roundsTo_hi_iff hlo hhi, h.isEven_hi]
  rcases lt_trichotomy (v - lo) (hi - v) with hlt | heq | hgt
  · exact Or.inl (Or.inl hlt)
  · by_cases heven : IsEven lo
    · exact Or.inl (Or.inr ⟨heq, heven⟩)
    · exact Or.inr (Or.inr ⟨heq.symm, heven⟩)
  · exact Or.inr (Or.inl hgt)

theorem not_roundsTo_both (hl : RoundsTo v lo) (hh : RoundsTo v hi) : False := by
  rw [h.roundsTo_lo_iff hlo hhi] at hl
  rw [h.roundsTo_hi_iff hlo hhi] at hh
  rcases hl with hl | ⟨heq, hl⟩
  · rcases hh with hh | ⟨heq, -⟩
    · exact absurd hl hh.asymm
    · exact absurd heq hl.ne'
  · rcases hh with hh | ⟨-, hh⟩
    · exact absurd heq hh.ne'
    · exact h.isEven_hi.mp hh hl

/-- **Rounding leaves no choice.** -/
theorem roundsTo_unique (hx : RoundsTo v x) (hy : RoundsTo v y) : x = y := by
  rcases h.eq_of_roundsTo hlo hhi hx with rfl | rfl <;>
    rcases h.eq_of_roundsTo hlo hhi hy with rfl | rfl
  · rfl
  · exact (h.not_roundsTo_both hlo hhi hx hy).elim
  · exact (h.not_roundsTo_both hlo hhi hy hx).elim
  · rfl

end Neighbours
end Between

/-! ## 3. The neighbours of a ratio -/

section Ratio

variable {num den : ℕ}

/-- The power of two that the neighbours of a ratio are multiples of, in units. -/
def stepPower (num den : ℕ) : ℕ := surplus (num * 2 ^ unitPower / den)

/-- How many times the power of two goes into the lower neighbour. -/
def significand (num den : ℕ) : ℕ := num * 2 ^ unitPower / (den * 2 ^ stepPower num den)

theorem significand_eq (num den : ℕ) :
    significand num den = num * 2 ^ unitPower / den / 2 ^ stepPower num den := by
  rw [significand, Nat.div_div_eq_div_mul]

theorem significand_lt (num den : ℕ) : significand num den < 2 ^ 53 := by
  rw [significand_eq, Nat.div_lt_iff_lt_mul (Nat.two_pow_pos _), ← Nat.pow_add]
  refine Nat.lt_log2_self.trans_le (Nat.pow_le_pow_right (by norm_num) ?_)
  rw [stepPower, surplus, precision]
  omega

theorem significand_full (num den : ℕ) :
    stepPower num den = 0 ∨ 2 ^ 52 ≤ significand num den := by
  rw [significand_eq]
  generalize hq : num * 2 ^ unitPower / den = q
  have hstep : stepPower num den = q.log2 + 1 - 53 := by rw [stepPower, hq, surplus, precision]
  by_cases hzero : stepPower num den = 0
  · exact Or.inl hzero
  right
  have hne : q ≠ 0 := by
    rintro rfl
    simp [hstep] at hzero
  rw [Nat.le_div_iff_mul_le (Nat.two_pow_pos _), ← Nat.pow_add]
  exact (Nat.pow_le_pow_right (by norm_num) (by omega)).trans (Nat.log2_self_le hne)

/-- What a ratio is above its lower neighbour, and what it is below the upper one. -/
theorem sub_neighbours (num : ℕ) (hden : 0 < den) :
    let rem := num * 2 ^ unitPower % (den * 2 ^ stepPower num den)
    let scale : ℚ := den * 2 ^ unitPower
    (num / den : ℚ) - value (significand num den * 2 ^ stepPower num den) = rem / scale ∧
      value ((significand num den + 1) * 2 ^ stepPower num den) - num / den =
        (den * 2 ^ stepPower num den - rem) / scale := by
  intro rem scale
  have hdiv : (den * 2 ^ stepPower num den * significand num den + rem : ℚ) =
      num * 2 ^ unitPower := by
    exact_mod_cast Nat.div_add_mod (num * 2 ^ unitPower) (den * 2 ^ stepPower num den)
  have hunits : (0 : ℚ) < 2 ^ unitPower := by positivity
  have hden' : (0 : ℚ) < den := Nat.cast_pos.mpr hden
  simp only [value, scale, Nat.cast_mul, Nat.cast_add, Nat.cast_pow, Nat.cast_one, Nat.cast_ofNat]
  generalize (2 : ℚ) ^ unitPower = units at hdiv hunits
  constructor
  · field_simp
    linarith
  · field_simp
    linarith

/-- The units that a ratio is rounded to, if they are not too many. -/
def roundedUnits (num den : ℕ) : ℕ :=
  roundQuotient (num * 2 ^ unitPower) (den * 2 ^ stepPower num den) * 2 ^ stepPower num den

theorem ofRatio_eq (num den : ℕ) : ofRatio num den =
    if roundedUnits num den < 2 ^ (rangePower + unitPower) then .finite (roundedUnits num den)
    else .infinite := by
  simp only [ofRatio, roundedUnits, stepPower, Nat.pow_eq]
  congr

variable (num) (hden : 0 < den)
include hden

/-- The neighbours of a ratio. -/
theorem neighbours_ratio :
    let lo := value (significand num den * 2 ^ stepPower num den)
    let hi := value ((significand num den + 1) * 2 ^ stepPower num den)
    Neighbours lo hi ∧ lo ≤ (num / den : ℚ) ∧ (num / den : ℚ) < hi := by
  intro lo hi
  obtain ⟨hlo, hhi⟩ := sub_neighbours num hden
  have hscale : (0 : ℚ) < den * 2 ^ unitPower :=
    mul_pos (Nat.cast_pos.mpr hden) (by positivity)
  have hrem : (num * 2 ^ unitPower % (den * 2 ^ stepPower num den) : ℕ) <
      (den * 2 ^ stepPower num den : ℚ) := by
    exact_mod_cast Nat.mod_lt _ (Nat.mul_pos hden (Nat.two_pow_pos _))
  refine ⟨neighbours (significand_lt num den) (significand_full num den), ?_, ?_⟩
  · rw [← sub_nonneg, hlo]
    exact div_nonneg (Nat.cast_nonneg _) hscale.le
  · rw [← sub_pos, hhi]
    exact div_pos (sub_pos.mpr hrem) hscale

/-- **A ratio rounds to the units that are computed.** -/
theorem roundsTo_roundedUnits : RoundsTo (num / den) (value (roundedUnits num den)) := by
  obtain ⟨hn, hlo, hhi⟩ := neighbours_ratio num hden
  obtain ⟨hsubLo, hsubHi⟩ := sub_neighbours num hden
  have hscale : (0 : ℚ) < den * 2 ^ unitPower :=
    mul_pos (Nat.cast_pos.mpr hden) (by positivity)
  have hparity := isEven_iff (significand_lt num den) (significand_full num den)
  unfold roundedUnits roundQuotient
  dsimp only
  rw [← significand]
  generalize num * 2 ^ unitPower % (den * 2 ^ stepPower num den) = rem at hsubLo hsubHi ⊢
  -- the remainder is compared with what is missing to the divisor
  have hlt : rem / (den * 2 ^ unitPower : ℚ) <
      (den * 2 ^ stepPower num den - rem) / (den * 2 ^ unitPower) ↔
        2 * rem < den * 2 ^ stepPower num den := by
    rw [div_lt_div_iff_of_pos_right hscale, lt_sub_iff_add_lt, ← two_mul]
    exact_mod_cast Iff.rfl
  have heq : rem / (den * 2 ^ unitPower : ℚ) =
      (den * 2 ^ stepPower num den - rem) / (den * 2 ^ unitPower) ↔
        2 * rem = den * 2 ^ stepPower num den := by
    rw [div_left_inj' hscale.ne', eq_sub_iff_add_eq, ← two_mul]
    exact_mod_cast Iff.rfl
  split
  · rename_i h
    rw [hn.roundsTo_lo_iff hlo hhi, hsubLo, hsubHi, hlt, heq, hparity]
    exact h
  · rename_i h
    refine (hn.roundsTo_or hlo hhi).resolve_left ?_
    rw [hn.roundsTo_lo_iff hlo hhi, hsubLo, hsubHi, hlt, heq, hparity]
    exact h

variable {num} in
/-- Rounding a ratio leaves no choice. -/
theorem roundsTo_ratio_unique {x y : ℚ} (hx : RoundsTo (num / den) x)
    (hy : RoundsTo (num / den) y) : x = y := by
  obtain ⟨hn, hlo, hhi⟩ := neighbours_ratio num hden
  exact hn.roundsTo_unique hlo hhi hx hy

end Ratio

/-! ## 4. Too large -/

/-- The least power of two that no finite value reaches. -/
def range : ℚ := 2 ^ (1024 : ℤ)

/-- From here on ratios are infinite: halfway between the largest finite value and `range`. -/
def overflow : ℚ := 2 ^ (1024 : ℤ) - 2 ^ (970 : ℤ)

theorem value_lt_range_iff {u : ℕ} : value u < range ↔ u < 2 ^ (rangePower + unitPower) := by
  have hrange : range = value (1 * 2 ^ (rangePower + unitPower)) := by
    rw [value_mul_pow, Nat.cast_one, one_mul]
    rfl
  rw [hrange, value_lt_iff, one_mul]

/-- `range` and the last value below it, which is odd. -/
theorem neighbours_range :
    ∃ last, Neighbours last range ∧ ¬ IsEven last ∧ last < overflow ∧
      overflow - last = range - overflow := by
  have hodd : (2 ^ 53 - 1 : ℕ) < 2 ^ 53 := by norm_num
  have hfull : 2045 = 0 ∨ 2 ^ 52 ≤ (2 ^ 53 - 1 : ℕ) := by norm_num
  have hvalue : ∀ m : ℕ, value (m * 2 ^ 2045) = 2 * m * 2 ^ (970 : ℤ) := by
    intro m
    have hpower : ((2045 : ℕ) : ℤ) - 1074 = 970 + 1 := by norm_num
    rw [value_mul_pow, hpower, zpow_add_one₀ (by norm_num)]
    ring
  have hrange : range = 2 ^ 54 * 2 ^ (970 : ℤ) := by
    have hpower : (1024 : ℤ) = 970 + 54 := by norm_num
    rw [range, hpower, zpow_add₀ (by norm_num)]
    ring
  have hnext : range = value ((2 ^ 53 - 1 + 1) * 2 ^ 2045) := by
    rw [hrange, hvalue]
    norm_num
  have hstep : (0 : ℚ) < 2 ^ (970 : ℤ) := by positivity
  refine ⟨value ((2 ^ 53 - 1) * 2 ^ 2045), ?_, ?_, ?_⟩
  · rw [hnext]
    exact neighbours hodd hfull
  · rw [isEven_iff hodd hfull]
    norm_num
  · have hlast := hvalue (2 ^ 53 - 1)
    rw [overflow, ← range, hrange, hlast]
    generalize (2 : ℚ) ^ (970 : ℤ) = step at hstep
    norm_num
    constructor
    · linarith
    · ring

/-- **What rounds to a finite value.** -/
theorem RoundsTo.lt_range_iff {v x : ℚ} (h : RoundsTo v x) : x < range ↔ v < overflow := by
  obtain ⟨last, hn, hodd, hlast, hhalf⟩ := neighbours_range
  rcases lt_or_ge v last with hv | hlo
  · -- `last` is nearer than all that is not below `range`
    have hnear := h.nearest last hn.isValue_lo
    rw [abs_sub_comm v last, abs_of_pos (sub_pos.mpr hv)] at hnear
    have hx := (abs_le.mp hnear).1
    exact iff_of_true (by linarith) (hv.trans hlast)
  rcases lt_or_ge v range with hhi | hge
  · -- both neighbours are equally far from `overflow`, and `range` is even
    constructor
    · intro hx
      obtain rfl := (hn.eq_of_roundsTo hlo hhi h).resolve_right hx.ne
      rcases (hn.roundsTo_lo_iff hlo hhi).mp h with hnear | ⟨-, heven⟩
      · linarith
      · exact absurd heven hodd
    · intro hv
      rcases hn.eq_of_roundsTo hlo hhi h with rfl | rfl
      · linarith
      · rcases (hn.roundsTo_hi_iff hlo hhi).mp h with hnear | ⟨hnear, -⟩
        · linarith
        · linarith
  · -- `range` is nearer than all that is below it
    have hnear := h.nearest range hn.isValue_hi
    rw [abs_of_nonneg (sub_nonneg.mpr hge)] at hnear
    have hx := (abs_le.mp hnear).2
    exact iff_of_false (by linarith) (by linarith)

/-! ## 5. What is computed -/

section OfRatio

variable {num den u : ℕ}

/-- **The finite answers** are those that a ratio rounds to. -/
theorem ofRatio_eq_finite_iff (hden : 0 < den) :
    ofRatio num den = .finite u ↔ RoundsTo (num / den) (value u) ∧ value u < range := by
  have hrounds := roundsTo_roundedUnits num hden
  rw [ofRatio_eq]
  split
  · rename_i hlt
    rw [finite.injEq]
    constructor
    · rintro rfl
      exact ⟨hrounds, value_lt_range_iff.mpr hlt⟩
    · rintro ⟨h, -⟩
      exact value_inj.mp (roundsTo_ratio_unique hden hrounds h)
  · rename_i hge
    refine iff_of_false (by simp) ?_
    rintro ⟨h, hlt⟩
    rw [← roundsTo_ratio_unique hden hrounds h, value_lt_range_iff] at hlt
    exact hge hlt

/-- **The infinite answer** is for the ratios that are too large. -/
theorem ofRatio_eq_infinite_iff (hden : 0 < den) :
    ofRatio num den = .infinite ↔ overflow ≤ (num / den : ℚ) := by
  have hrounds := roundsTo_roundedUnits num hden
  rw [← not_lt, ← hrounds.lt_range_iff, value_lt_range_iff, ofRatio_eq]
  split
  · rename_i hlt
    simpa using hlt
  · rename_i hge
    simpa using hge

end OfRatio

/-! ## 6. What rounds to one value -/

section Laws

variable {a b c x y : ℚ}

theorem roundsTo_self (hx : IsValue x) : RoundsTo x x := by
  refine ⟨hx, fun y _ => by simp, ?_⟩
  intro y _ hyx heq
  rw [sub_self, abs_zero, abs_eq_zero, sub_eq_zero] at heq
  exact absurd heq.symm hyx

/-- Which of two is nearer depends linearly on the place. -/
theorem abs_sub_le_iff_mul (c x y : ℚ) : |c - x| ≤ |c - y| ↔ 0 ≤ (x - y) * (2 * c - x - y) := by
  rw [← sq_le_sq, ← sub_nonneg]
  ring_nf

theorem abs_sub_eq_iff_mul (c x y : ℚ) : |c - y| = |c - x| ↔ (x - y) * (2 * c - x - y) = 0 := by
  rw [← sq_eq_sq_iff_abs_eq_abs, ← sub_eq_zero]
  ring_nf

/-- **What rounds to one value has no gaps.** -/
theorem RoundsTo.between (ha : RoundsTo a x) (hb : RoundsTo b x) (hac : a ≤ c) (hcb : c ≤ b) :
    RoundsTo c x := by
  refine ⟨ha.isValue, ?_, ?_⟩
  · intro y hy
    have hnearA := (abs_sub_le_iff_mul a x y).mp (ha.nearest y hy)
    have hnearB := (abs_sub_le_iff_mul b x y).mp (hb.nearest y hy)
    rw [abs_sub_le_iff_mul]
    rcases le_total y x with hyx | hxy
    · nlinarith
    · nlinarith
  · intro y hy hyx heq
    have hnearA := (abs_sub_le_iff_mul a x y).mp (ha.nearest y hy)
    have hnearB := (abs_sub_le_iff_mul b x y).mp (hb.nearest y hy)
    rw [abs_sub_eq_iff_mul] at heq
    -- a tie at `c` is one at `a` or at `b` already
    rcases lt_or_gt_of_ne hyx with hlt | hgt
    · exact ha.even y hy hyx ((abs_sub_eq_iff_mul a x y).mpr (by nlinarith))
    · exact hb.even y hy hyx ((abs_sub_eq_iff_mul b x y).mpr (by nlinarith))

end Laws

end Loxeme.Magnitude
