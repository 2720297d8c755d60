/-
# Shortest decimals

`Magnitude.shortest` finds, of the decimals that round to a value, one with the fewest digits, and
among those one nearest to the value.  The search looks at one grid after the other, and two facts
about the value make that enough.

* **On one grid** only the neighbours of the value matter: what rounds to the value from farther
  away has a neighbour on its way, and that rounds to the value too (`candidates`).
* **Off the grid** nothing is missed: a decimal with few digits is on a coarse grid, or it is below
  the power of ten that the value begins with, and this power is on the grid (`exists_onGrid`).

`searchFrom_spec` is the search, `shortest_spec` its result.
-/
import Loxeme.Number.Shortest
import Loxeme.Proofs.Numerals
import Mathlib.Data.Nat.Cast.Order.Field

namespace Loxeme

/-- The number is a decimal of at most `n` significant digits. -/
def HasDigits (n : ℕ) (w : ℚ) : Prop := ∃ (c : ℕ) (g : ℤ), c < 10 ^ n ∧ w = c * 10 ^ g

namespace Magnitude

/-- **Shortest decimals**: `w` rounds to `x`, has no more than `n` digits, fewer are not enough, and
no other decimal with so few digits that rounds to `x` is nearer. -/
structure IsShortest (n : ℕ) (w x : ℚ) : Prop where
  rounds : RoundsTo w x
  hasDigits : HasDigits n w
  fewest : ∀ m v, HasDigits m v → RoundsTo v x → n ≤ m
  nearest : ∀ v, HasDigits n v → RoundsTo v x → |x - w| ≤ |x - v|

/-- Of the multiples of `10 ^ g` that round to `x`, this one is the nearest. -/
structure NearestOn (x : ℚ) (g : ℤ) (c : ℕ) : Prop where
  rounds : RoundsTo (c * 10 ^ g) x
  nearest : ∀ b : ℕ, RoundsTo (b * 10 ^ g) x → |x - c * 10 ^ g| ≤ |x - b * 10 ^ g|

/-! ## 1. Towards the value -/

section Toward

variable {w v x : ℚ} {g k : ℤ}

/-- On the way to the value everything rounds to it. -/
theorem RoundsTo.toward (h : RoundsTo w x) (hv : w ≤ v ∧ v ≤ x ∨ x ≤ v ∧ v ≤ w) :
    RoundsTo v x ∧ |x - v| ≤ |x - w| := by
  have hself := roundsTo_self h.isValue
  rcases hv with ⟨hwv, hvx⟩ | ⟨hxv, hvw⟩
  · refine ⟨h.between hself hwv hvx, ?_⟩
    rw [abs_of_nonneg (by linarith), abs_of_nonneg (by linarith)]
    linarith
  · refine ⟨hself.between h hxv hvw, ?_⟩
    rw [abs_of_nonpos (by linarith), abs_of_nonpos (by linarith)]
    linarith

/-- What rounds to a positive value is positive. -/
theorem RoundsTo.pos (h : RoundsTo w x) (hx : 0 < x) : 0 < w := by
  by_contra hw
  have hnear := h.nearest 0 isValue_zero
  rw [abs_of_neg (by linarith), sub_zero, abs_of_nonpos (not_lt.mp hw)] at hnear
  linarith

/-- What rounds to the value from a grid has a neighbour of the value on its way. -/
theorem exists_neighbour {below c : ℕ} (hlo : below * 10 ^ g ≤ x) (hhi : x < (below + 1) * 10 ^ g)
    (hc : RoundsTo (c * 10 ^ g) x) :
    ∃ b : ℕ, (b = below ∨ b = below + 1) ∧ RoundsTo (b * 10 ^ g) x ∧
      |x - b * 10 ^ g| ≤ |x - c * 10 ^ g| := by
  have hstep : (0 : ℚ) < 10 ^ g := by positivity
  rcases Nat.lt_or_ge below c with hlt | hge
  · have hle : ((below + 1 : ℕ) : ℚ) ≤ c := Nat.cast_le.mpr hlt
    refine ⟨below + 1, Or.inr rfl, hc.toward (Or.inr ⟨?_, ?_⟩)⟩
    · exact_mod_cast hhi.le
    · exact mul_le_mul_of_nonneg_right hle hstep.le
  · have hle : (c : ℚ) ≤ below := Nat.cast_le.mpr hge
    exact ⟨below, Or.inl rfl, hc.toward (Or.inl ⟨mul_le_mul_of_nonneg_right hle hstep.le, hlo⟩)⟩

theorem pow_toNat {n : ℤ} (hn : 0 ≤ n) : ((10 ^ n.toNat : ℕ) : ℚ) = 10 ^ n := by
  rw [Nat.cast_pow, ← zpow_natCast, Int.toNat_of_nonneg hn]
  rfl

/-- **Nothing is missed off a grid.**  A decimal with no more digits than the value has on the grid
is a multiple of it, or a power of ten is on the way. -/
theorem exists_onGrid (hlow : 10 ^ (k - 1) ≤ x) (hg : g ≤ k - 1)
    (hw : HasDigits (k - g).toNat w) (hr : RoundsTo w x) :
    ∃ b : ℕ, RoundsTo (b * 10 ^ g) x ∧ |x - b * 10 ^ g| ≤ |x - w| := by
  have hten : (10 : ℚ) ≠ 0 := by norm_num
  obtain ⟨c, e, hc, rfl⟩ := hw
  rcases le_or_gt g e with hge | hlt
  · have hmul : ((c * 10 ^ (e - g).toNat : ℕ) : ℚ) * 10 ^ g = c * 10 ^ e := by
      rw [Nat.cast_mul, pow_toNat (by omega), mul_assoc, ← zpow_add₀ hten, sub_add_cancel]
    refine ⟨c * 10 ^ (e - g).toNat, ?_⟩
    rw [hmul]
    exact ⟨hr, le_rfl⟩
  · have hpow : ((10 ^ (k - 1 - g).toNat : ℕ) : ℚ) * 10 ^ g = 10 ^ (k - 1) := by
      rw [pow_toNat (by omega), ← zpow_add₀ hten, sub_add_cancel]
    refine ⟨10 ^ (k - 1 - g).toNat, ?_⟩
    rw [hpow]
    refine hr.toward (Or.inl ⟨?_, hlow⟩)
    have hcoefficient : (c : ℚ) ≤ 10 ^ (k - g) := by
      rw [← pow_toNat (n := k - g) (by omega)]
      exact Nat.cast_le.mpr hc.le
    calc (c : ℚ) * 10 ^ e ≤ 10 ^ (k - g) * 10 ^ e :=
          mul_le_mul_of_nonneg_right hcoefficient (by positivity)
      _ = 10 ^ (k - g + e) := (zpow_add₀ hten _ _).symm
      _ ≤ 10 ^ (k - 1) := zpow_le_zpow_right₀ (by norm_num) (by omega)

end Toward

/-! ## 2. One grid -/

section Grid

variable {units c : ℕ} {g : ℤ}

/-- A ratio is the whole part of its quotient and a rest. -/
theorem ratio_eq_add {num den : ℕ} (hden : 0 < den) :
    (num / den : ℚ) = (num / den : ℕ) + (num % den : ℕ) / den := by
  have hdiv : (den * (num / den : ℕ) + (num % den : ℕ) : ℚ) = num := by
    exact_mod_cast Nat.div_add_mod num den
  have hden' : (den : ℚ) ≠ 0 := Nat.cast_ne_zero.mpr hden.ne'
  field_simp
  exact hdiv.symm

/-- The rounded quotient is the nearer one of two. -/
theorem roundQuotient_nearest {num den other : ℕ} (hden : 0 < den)
    (hother : other = num / den ∨ other = num / den + 1) :
    |(num / den : ℚ) - roundQuotient num den| ≤ |(num / den : ℚ) - other| := by
  have hden' : (0 : ℚ) < den := Nat.cast_pos.mpr hden
  have hnonneg : (0 : ℚ) ≤ (num % den : ℕ) / den := div_nonneg (Nat.cast_nonneg _) hden'.le
  have hlt : ((num % den : ℕ) / den : ℚ) < 1 :=
    (div_lt_one₀ hden').mpr (Nat.cast_lt.mpr (Nat.mod_lt _ hden))
  rw [ratio_eq_add hden]
  unfold roundQuotient
  dsimp only
  split
  · rename_i h
    have hle : ((num % den : ℕ) / den : ℚ) ≤ 1 / 2 := by
      rw [div_le_div_iff₀ hden' (by norm_num)]
      exact_mod_cast (by omega : num % den * 2 ≤ 1 * den)
    generalize ((num % den : ℕ) / den : ℚ) = rest at hnonneg hlt hle ⊢
    rcases hother with rfl | rfl
    · rfl
    · rw [Nat.cast_add, Nat.cast_one, abs_of_nonneg (by linarith), abs_of_nonpos (by linarith)]
      linarith
  · rename_i h
    have hge : (1 : ℚ) / 2 ≤ (num % den : ℕ) / den := by
      rw [div_le_div_iff₀ (by norm_num) hden']
      exact_mod_cast (by omega : 1 * den ≤ num % den * 2)
    generalize ((num % den : ℕ) / den : ℚ) = rest at hnonneg hlt hge ⊢
    rcases hother with rfl | rfl
    · rw [Nat.cast_add, Nat.cast_one, abs_of_nonpos (by linarith), abs_of_nonneg (by linarith)]
      linarith
    · rfl

/-- The value is the ratio that stands for it on a grid, in steps of the grid. -/
theorem onGrid_eq (units : ℕ) (g : ℤ) :
    ((onGrid units g).1 / (onGrid units g).2 : ℚ) * 10 ^ g = value units := by
  unfold onGrid value
  simp only [Nat.pow_eq, Nat.cast_mul, Nat.cast_pow, Nat.cast_ofNat]
  have hunits : (2 : ℚ) ^ unitPower ≠ 0 := by positivity
  generalize (2 : ℚ) ^ unitPower = denominator at hunits
  rw [ten_zpow_eq_div]
  field_simp

theorem onGrid_snd_pos (units : ℕ) (g : ℤ) : 0 < (onGrid units g).2 := by
  unfold onGrid
  generalize unitPower = n
  exact Nat.mul_pos (Nat.pow_pos (by decide)) (Nat.pow_pos (by decide))

/-- **Two multiples are tried**, the nearer one first.  Whatever rounds to the value from the grid,
one of the two does as well and is no farther. -/
theorem candidates (units : ℕ) (g : ℤ) : ∃ a b : ℕ,
    nearestOnGrid? units g =
        (if readsBack units g a then some a else if readsBack units g b then some b else none) ∧
      |value units - a * 10 ^ g| ≤ |value units - b * 10 ^ g| ∧
      ∀ c : ℕ, RoundsTo (c * 10 ^ g) (value units) → ∃ d, (d = a ∨ d = b) ∧
        RoundsTo (d * 10 ^ g) (value units) ∧
          |value units - d * 10 ^ g| ≤ |value units - c * 10 ^ g| := by
  have hden := onGrid_snd_pos units g
  have hvalue := onGrid_eq units g
  have hstep : (0 : ℚ) < 10 ^ g := by positivity
  unfold nearestOnGrid?
  generalize onGrid units g = grid at hden hvalue ⊢
  obtain ⟨num, den⟩ := grid
  dsimp only at hden hvalue ⊢
  have hlo : ((num / den : ℕ) : ℚ) * 10 ^ g ≤ value units := by
    rw [← hvalue, mul_le_mul_iff_left₀ hstep]
    exact Nat.cast_div_le
  have hhi : value units < ((num / den : ℕ) + 1) * 10 ^ g := by
    rw [← hvalue, mul_lt_mul_iff_left₀ hstep, div_lt_iff₀ (Nat.cast_pos.mpr hden)]
    have hlt := Nat.lt_mul_div_succ num hden
    rw [mul_comm] at hlt
    exact_mod_cast hlt
  have hnearest : ∀ other, other = num / den ∨ other = num / den + 1 →
      |value units - roundQuotient num den * 10 ^ g| ≤ |value units - other * 10 ^ g| := by
    intro other hother
    rw [← hvalue, ← sub_mul, ← sub_mul, abs_mul, abs_mul]
    exact mul_le_mul_of_nonneg_right (roundQuotient_nearest hden hother) (abs_nonneg _)
  rcases roundQuotient_eq_or num den with heq | heq
  · refine ⟨num / den, num / den + 1, ?_, ?_, ?_⟩
    · rw [heq, if_pos rfl]
    · have := hnearest (num / den + 1) (Or.inr rfl)
      rwa [heq] at this
    · intro c hc
      exact exists_neighbour hlo hhi hc
  · refine ⟨num / den + 1, num / den, ?_, ?_, ?_⟩
    · rw [heq, if_neg (Nat.succ_ne_self _)]
    · have := hnearest (num / den) (Or.inl rfl)
      rwa [heq] at this
    · intro c hc
      obtain ⟨d, hd, hrest⟩ := exists_neighbour hlo hhi hc
      exact ⟨d, hd.symm, hrest⟩

section Hits

variable (hu : value units < range)
include hu

theorem readsBack_iff : readsBack units g c = true ↔ RoundsTo (c * 10 ^ g) (value units) := by
  rw [readsBack, decide_eq_true_iff, Decimal.round_eq_finite_iff, and_iff_left hu]
  rfl

/-- What is found on a grid is the nearest there. -/
theorem nearestOn_of_eq_some (h : nearestOnGrid? units g = some c) :
    NearestOn (value units) g c := by
  obtain ⟨a, b, heq, hab, hhits⟩ := candidates units g
  rw [heq] at h
  by_cases ha : readsBack units g a = true
  · rw [if_pos ha] at h
    obtain rfl := Option.some.inj h
    refine ⟨(readsBack_iff hu).mp ha, fun c hc => ?_⟩
    obtain ⟨d, rfl | rfl, -, hle⟩ := hhits c hc
    · exact hle
    · exact hab.trans hle
  · rw [if_neg ha] at h
    by_cases hb : readsBack units g b = true
    · rw [if_pos hb] at h
      obtain rfl := Option.some.inj h
      refine ⟨(readsBack_iff hu).mp hb, fun c hc => ?_⟩
      obtain ⟨d, rfl | rfl, hd, hle⟩ := hhits c hc
      · exact absurd ((readsBack_iff hu).mpr hd) ha
      · exact hle
    · rw [if_neg hb] at h
      exact absurd h (by simp)

/-- If nothing is found, nothing on the grid rounds to the value. -/
theorem not_roundsTo_of_eq_none (h : nearestOnGrid? units g = none) (c : ℕ) :
    ¬ RoundsTo (c * 10 ^ g) (value units) := by
  obtain ⟨a, b, heq, -, hhits⟩ := candidates units g
  rw [heq] at h
  intro hc
  obtain ⟨d, rfl | rfl, hd, -⟩ := hhits c hc
  · rw [if_pos ((readsBack_iff hu).mpr hd)] at h
    exact absurd h (by simp)
  · rw [if_pos ((readsBack_iff hu).mpr hd)] at h
    split at h <;> exact absurd h (by simp)

end Hits
end Grid

/-! ## 3. The search -/

section Search

variable {units : ℕ}

/-- On the finest grid the value lies itself. -/
theorem exactCoefficient_mul (units : ℕ) :
    (exactCoefficient units * 10 ^ finestGrid : ℚ) = value units := by
  unfold exactCoefficient finestGrid value
  rw [zpow_neg, zpow_natCast, Nat.pow_eq, Nat.cast_mul, Nat.cast_pow]
  have hten : (10 : ℚ) = 2 * 5 := by norm_num
  rw [hten, mul_pow]
  generalize unitPower = n
  field_simp
  norm_num

theorem nearestOn_exact (hx : IsValue (value units)) :
    NearestOn (value units) finestGrid (exactCoefficient units) := by
  refine ⟨?_, fun b _ => ?_⟩
  · rw [exactCoefficient_mul]
    exact roundsTo_self hx
  · rw [exactCoefficient_mul, sub_self, abs_zero]
    exact abs_nonneg _

/-- **The search** ends with the first hit: there is none on the grids before. -/
theorem searchFrom_spec (hit? : ℤ → Option ℕ) (exact n : ℕ) :
    ∃ (c : ℕ) (g : ℤ), searchFrom hit? exact n = ⟨false, c, g⟩ ∧ g ≤ finestGrid + n ∧
      (hit? g = some c ∨ g = finestGrid ∧ c = exact) ∧
      ∀ h, g < h → h ≤ finestGrid + n → hit? h = none := by
  induction n with
  | zero =>
    refine ⟨exact, finestGrid, rfl, by omega, Or.inr ⟨rfl, rfl⟩, ?_⟩
    intro h hlt hle
    omega
  | succ n ih =>
    rw [searchFrom]
    cases hgrid : hit? (finestGrid + (n + 1 : ℕ)) with
    | some c =>
      refine ⟨c, _, rfl, le_rfl, Or.inl hgrid, ?_⟩
      intro h hlt hle
      omega
    | none =>
      obtain ⟨c, g, heq, hg, hhit, hnone⟩ := ih
      refine ⟨c, g, heq, by omega, hhit, ?_⟩
      intro h hlt hle
      rcases hle.lt_or_eq with hlt' | rfl
      · exact hnone h hlt (by omega)
      · exact hgrid

/-- A unit is above ten to minus `floorPower`. -/
theorem two_pow_unitPower_le : 2 ^ unitPower ≤ 10 ^ floorPower := by
  have hunit : unitPower = 179 * 6 := rfl
  have hfloor : floorPower = 54 * 6 := rfl
  have hroot : 2 ^ 179 ≤ 10 ^ 54 := by norm_num
  rw [hunit, hfloor, Nat.pow_mul, Nat.pow_mul]
  exact Nat.pow_le_pow_left hroot 6

/-- **Places before the point**: they name the powers of ten around a value. -/
theorem decimalPlaces_spec (hpos : 0 < units) :
    (10 : ℚ) ^ (decimalPlaces units - 1) ≤ value units ∧
      value units < 10 ^ decimalPlaces units := by
  have hunits : 0 < 2 ^ unitPower := Nat.two_pow_pos _
  have hscaled : 0 < units * 10 ^ floorPower / 2 ^ unitPower :=
    Nat.div_pos (two_pow_unitPower_le.trans (Nat.le_mul_of_pos_left _ hpos)) hunits
  obtain ⟨hlo, hhi⟩ := pow_length_toDigits hscaled
  have hplaces : 0 < (Nat.toDigits 10 (units * 10 ^ floorPower / 2 ^ unitPower)).length :=
    Nat.length_toDigits_pos
  have hvalue : value units * 10 ^ (floorPower : ℤ) =
      (units * 10 ^ floorPower : ℕ) / (2 ^ unitPower : ℕ) := by
    rw [value, zpow_natCast, Nat.cast_mul, Nat.cast_pow, Nat.cast_pow, div_mul_eq_mul_div]
    rfl
  have hscale : (0 : ℚ) < 10 ^ (floorPower : ℤ) := by positivity
  have hten : (10 : ℚ) ≠ 0 := by norm_num
  unfold decimalPlaces
  rw [Nat.pow_eq, Nat.pow_eq, ← mul_le_mul_iff_left₀ hscale, ← mul_lt_mul_iff_left₀ hscale, hvalue,
    ← zpow_add₀ hten, ← zpow_add₀ hten]
  generalize (Nat.toDigits 10 (units * 10 ^ floorPower / 2 ^ unitPower)).length = places at *
  generalize units * 10 ^ floorPower = num at *
  generalize 2 ^ unitPower = den at *
  constructor
  · have hexp : (places : ℤ) - floorPower - 1 + floorPower = (places - 1 : ℕ) := by omega
    rw [hexp, zpow_natCast]
    calc (10 : ℚ) ^ (places - 1) ≤ (num / den : ℕ) := by exact_mod_cast hlo
      _ ≤ num / den := Nat.cast_div_le
  · rw [sub_add_cancel, zpow_natCast, div_lt_iff₀ (Nat.cast_pos.mpr hunits)]
    have hlt : num < 10 ^ places * den := (Nat.div_lt_iff_lt_mul hunits).mp hhi
    exact_mod_cast hlt

end Search

/-! ## 4. What is found -/

section Found

variable {x v : ℚ} {c m : ℕ} {g k : ℤ}

/-- Without digits there is only zero. -/
theorem pos_of_hasDigits (h : HasDigits m v) (hv : 0 < v) : 0 < m := by
  obtain ⟨b, e, hb, rfl⟩ := h
  by_contra hm
  obtain rfl : m = 0 := by omega
  obtain rfl : b = 0 := by simpa using hb
  simp at hv

/-- The nearest on a grid has no more digits there than the value: past the next power of ten, that
power would be nearer. -/
theorem NearestOn.hasDigits (h : NearestOn x g c) (hhi : x < 10 ^ k) (hg : g < k) :
    HasDigits (k - g).toNat (c * 10 ^ g) := by
  have hten : (10 : ℚ) ≠ 0 := by norm_num
  have hpower : ((10 ^ (k - g).toNat : ℕ) : ℚ) * 10 ^ g = 10 ^ k := by
    rw [pow_toNat (by omega), ← zpow_add₀ hten, sub_add_cancel]
  rcases lt_trichotomy c (10 ^ (k - g).toNat) with hlt | heq | hgt
  · exact ⟨c, g, hlt, rfl⟩
  · -- a power of ten has one digit
    refine ⟨1, k, Nat.one_lt_pow (by omega) (by norm_num), ?_⟩
    rw [heq, hpower, Nat.cast_one, one_mul]
  · have hle : (10 : ℚ) ^ k < c * 10 ^ g := by
      rw [← hpower]
      exact mul_lt_mul_of_pos_right (Nat.cast_lt.mpr hgt) (by positivity)
    have hrounds := (h.rounds.toward (Or.inr ⟨hhi.le, hle.le⟩)).1
    rw [← hpower] at hrounds
    have hnear := h.nearest _ hrounds
    rw [hpower, abs_of_neg (by linarith), abs_of_neg (by linarith)] at hnear
    linarith

/-- **The nearest on a grid is shortest**, if the value begins on that grid or a coarser one, and
nothing on the grids from there rounds to it. -/
theorem NearestOn.isShortest (h : NearestOn x g c) (hlo : 10 ^ (k - 1) ≤ x) (hhi : x < 10 ^ k)
    (hg : g ≤ k - 1)
    (hnone : ∀ i, g < i → i ≤ k - 1 → ∀ b : ℕ, ¬ RoundsTo (b * 10 ^ i) x) :
    IsShortest (k - g).toNat (c * 10 ^ g) x := by
  have hx : 0 < x := lt_of_lt_of_le (by positivity) hlo
  refine ⟨h.rounds, h.hasDigits hhi (by omega), ?_, ?_⟩
  · intro m v hm hv
    by_contra hlt
    have hpos := pos_of_hasDigits hm (hv.pos hx)
    have hm' : HasDigits (k - (k - m)).toNat v := by
      rwa [sub_sub_cancel, Int.toNat_natCast]
    obtain ⟨b, hb, -⟩ := exists_onGrid hlo (by omega) hm' hv
    exact hnone (k - m) (by omega) (by omega) b hb
  · intro v hdigits hv
    obtain ⟨b, hb, hle⟩ := exists_onGrid hlo hg hdigits hv
    exact (h.nearest b hb).trans hle

end Found

/-- **What is found is shortest.** -/
theorem shortest_spec {units : ℕ} (hpos : 0 < units) (hx : IsValue (value units))
    (hu : value units < range) :
    (shortest units).negative = false ∧ ∃ n, IsShortest n (shortest units).value (value units) := by
  obtain ⟨hlo, hhi⟩ := decimalPlaces_spec hpos
  have hstart : finestGrid ≤ decimalPlaces units - 1 := by
    unfold finestGrid decimalPlaces
    generalize (Nat.toDigits 10 _).length = places
    unfold unitPower floorPower
    omega
  obtain ⟨c, g, heq, hg, hhit, hnone⟩ := searchFrom_spec (nearestOnGrid? units)
    (exactCoefficient units) (decimalPlaces units - 1 - finestGrid).toNat
  have hend : finestGrid + (decimalPlaces units - 1 - finestGrid).toNat =
      decimalPlaces units - 1 := by omega
  rw [hend] at hg hnone
  have hnear : NearestOn (value units) g c := by
    rcases hhit with hhit | ⟨hgrid, hexact⟩
    · exact nearestOn_of_eq_some hu hhit
    · rw [hgrid, hexact]
      exact nearestOn_exact hx
  rw [shortest, heq]
  exact ⟨rfl, _, hnear.isShortest hlo hhi hg fun i hgi hi =>
    not_roundsTo_of_eq_none hu (hnone i hgi hi)⟩

end Magnitude
end Loxeme
