/-
# Numerals

What a numeral denotes, and that the number token made of it carries the value of the binary64
format that this rounds to.  `Denotes` says it by the places of the digits; nothing in it is about
reading.

* `placeValue` is the value of digits, `Denotes` that of digits with or without a point.
* `Decimal.round_eq_finite_iff` and `Decimal.round_eq_infinite_iff` say what a decimal is rounded
  to.
* `number_rounded`: number literals are correctly rounded, however long they are.
-/
import Loxeme.Proofs.Rounding
import Loxeme.Proofs.RoundTrip

namespace Loxeme

open Magnitude (RoundsTo range overflow)

/-! ## 1. What a numeral denotes -/

/-- The value of decimal digits: each counts by its place. -/
def placeValue : Text → ℕ
  | [] => 0
  | d :: ds => (d.toNat - '0'.toNat) * 10 ^ ds.length + placeValue ds

/-- A numeral denotes a number: the whole part, and past the point tenths, hundredths and so on. -/
inductive Denotes : Text → ℚ → Prop
  | whole {ds : Text} (hne : ds ≠ []) (hds : ∀ d ∈ ds, d.isDigit = true) :
      Denotes ds (placeValue ds)
  | fraction {ds fs : Text} (hne : ds ≠ []) (hds : ∀ d ∈ ds, d.isDigit = true) (hnf : fs ≠ [])
      (hfs : ∀ d ∈ fs, d.isDigit = true) :
      Denotes (ds ++ '.' :: fs) (placeValue ds + placeValue fs / 10 ^ fs.length)

@[simp] theorem placeValue_nil : placeValue [] = 0 := rfl

theorem placeValue_cons (d : Char) (ds : Text) :
    placeValue (d :: ds) = (d.toNat - '0'.toNat) * 10 ^ ds.length + placeValue ds := rfl

theorem placeValue_append (ds es : Text) :
    placeValue (ds ++ es) = placeValue ds * 10 ^ es.length + placeValue es := by
  induction ds with
  | nil => simp
  | cons d ds ih =>
    rw [List.cons_append, placeValue_cons, placeValue_cons, ih, List.length_append]
    ring

/-- Reading digits from left to right counts each by its place. -/
theorem digitsValue_eq (ds : Text) : Decimal.digitsValue ds = placeValue ds := by
  unfold Decimal.digitsValue
  induction ds with
  | nil => rfl
  | cons d ds ih =>
    rw [Nat.ofDigitChars_cons, Nat.ofDigitChars_eq_ofDigitChars_zero, ih, placeValue_cons]
    ring

/-- The powers of ten around a number. -/
theorem pow_length_toDigits {n : ℕ} (hn : 0 < n) :
    10 ^ ((Nat.toDigits 10 n).length - 1) ≤ n ∧ n < 10 ^ (Nat.toDigits 10 n).length := by
  have hpos := Nat.length_toDigits_pos (b := 10) (n := n)
  refine ⟨?_, (Nat.length_toDigits_le_iff (by norm_num) hpos).mp le_rfl⟩
  by_contra hlt
  have hone : (Nat.toDigits 10 n).length - 1 ≠ 0 := by
    intro hzero
    rw [hzero] at hlt
    omega
  have := (Nat.length_toDigits_le_iff (by norm_num) (by omega)).mpr (not_le.mp hlt)
  omega

/-- A power of ten as a ratio of two whole numbers, of which one is 1. -/
theorem ten_zpow_eq_div (g : ℤ) : (10 : ℚ) ^ g = 10 ^ g.toNat / 10 ^ (-g).toNat := by
  rcases le_total 0 g with hpos | hneg
  · obtain ⟨n, rfl⟩ := Int.eq_ofNat_of_zero_le hpos
    rw [Int.toNat_natCast, Int.toNat_neg_natCast, pow_zero, div_one, zpow_natCast]
  · obtain ⟨n, hn⟩ := Int.eq_ofNat_of_zero_le (neg_nonneg.mpr hneg)
    obtain rfl : g = -n := by omega
    rw [neg_neg, Int.toNat_natCast, Int.toNat_neg_natCast, pow_zero, zpow_neg, zpow_natCast,
      one_div]

/-! ## 2. Decimals -/

namespace Decimal

/-- The value of a decimal, its sign apart. -/
def value (d : Decimal) : ℚ := d.coefficient * 10 ^ d.exponent

/-- The ratio that is rounded is the value. -/
theorem ratio_eq (d : Decimal) : (d.ratio.1 / d.ratio.2 : ℚ) = d.value := by
  unfold ratio value
  simp only [Nat.pow_eq, Nat.cast_mul, Nat.cast_pow, Nat.cast_ofNat]
  rw [ten_zpow_eq_div, mul_div_assoc]

theorem round_magnitude (d : Decimal) :
    d.round.magnitude = Magnitude.ofRatio d.ratio.1 d.ratio.2 := by
  rw [round]

section Round

variable {d : Decimal} {u : ℕ}

/-- **The finite values that decimals are rounded to.** -/
theorem round_eq_finite_iff : d.round.magnitude = .finite u ↔
    RoundsTo d.value (Magnitude.value u) ∧ Magnitude.value u < range := by
  rw [round_magnitude, ← ratio_eq]
  exact Magnitude.ofRatio_eq_finite_iff d.ratio_snd_pos

/-- **The decimals that are rounded to infinity.** -/
theorem round_eq_infinite_iff : d.round.magnitude = .infinite ↔ overflow ≤ d.value := by
  rw [round_magnitude, ← ratio_eq]
  exact Magnitude.ofRatio_eq_infinite_iff d.ratio_snd_pos

end Round

theorem splitPoint_whole {ds : Text} (hds : ∀ d ∈ ds, d.isDigit = true) :
    splitPoint ds = (ds, []) := by
  have hdrop : ds.dropWhile Char.isDigit = [] := List.dropWhile_eq_nil_iff.mpr hds
  rw [splitPoint, List.takeWhile_eq_self_iff.mpr hds, hdrop]
  rfl

theorem splitPoint_fraction {ds fs : Text} (hds : ∀ d ∈ ds, d.isDigit = true)
    (hfs : ∀ d ∈ fs, d.isDigit = true) : splitPoint (ds ++ '.' :: fs) = (ds, fs) := by
  have hpoint : Char.isDigit '.' = false := rfl
  rw [splitPoint, List.takeWhile_append_of_pos hds, List.dropWhile_append_of_pos hds,
    List.takeWhile_cons_of_neg (by simp [hpoint]), List.dropWhile_cons_of_neg (by simp [hpoint]),
    List.tail_cons, List.takeWhile_eq_self_iff.mpr hfs, List.append_nil]

end Decimal

/-- **A numeral is read as what it denotes.** -/
theorem Denotes.ofNumeral {t : Text} {v : ℚ} (h : Denotes t v) :
    (Decimal.ofNumeral t).value = v := by
  unfold Decimal.ofNumeral Decimal.value
  cases h with
  | whole hne hds =>
    rw [Decimal.splitPoint_whole hds]
    simp [digitsValue_eq]
  | @fraction ds fs hne hds hnf hfs =>
    rw [Decimal.splitPoint_fraction hds hfs]
    simp only [digitsValue_eq, placeValue_append, zpow_neg, zpow_natCast, Nat.cast_add,
      Nat.cast_mul, Nat.cast_pow, Nat.cast_ofNat]
    field_simp

/-- Numerals have no sign. -/
theorem Decimal.round_ofNumeral (t : Text) :
    (ofNumeral t).round = ⟨false, (ofNumeral t).round.magnitude⟩ := by
  rw [round_magnitude, round, ofNumeral]

/-- A numeral denotes one number only. -/
theorem Denotes.unique {t : Text} {v w : ℚ} (hv : Denotes t v) (hw : Denotes t w) : w = v :=
  hw.ofNumeral.symm.trans hv.ofNumeral

/-! ## 3. Number tokens -/

section Tokens

variable {source : Text} {t : Token}

/-- A number token is a numeral, and its literal is what the numeral is read as. -/
theorem number_of_mem (ht : t ∈ (Scan.ofSource source).tokens) (hk : t.kind = .number) :
    (∃ v, Denotes t.lexeme v) ∧
      t.literal = some (.number ⟨false, (Decimal.ofNumeral t.lexeme).round.magnitude⟩) := by
  obtain ⟨line, htokens⟩ := tokens_eq_dropLast_append source
  rw [htokens, List.mem_append, List.mem_singleton] at ht
  rw [← Decimal.round_ofNumeral]
  rcases ht with ht | rfl
  · cases wellFormed_of_mem ht with
    | whole hne hds => exact ⟨⟨_, .whole hne hds⟩, rfl⟩
    | fraction hne hds hnf hfs => exact ⟨⟨_, .fraction hne hds hnf hfs⟩, rfl⟩
    | _ => exact absurd hk (by simp)
  · exact absurd hk (by simp [Token.endOn])

/-- **Number literals are correctly rounded.**  The numeral denotes one number.  From halfway past
the largest finite value on the literal is infinite; below, it is the value that the number rounds
to, with its sign positive. -/
theorem number_rounded (ht : t ∈ (Scan.ofSource source).tokens) (hk : t.kind = .number) :
    ∃ (v : ℚ) (x : Magnitude), (∀ w, Denotes t.lexeme w ↔ w = v) ∧
      t.literal = some (.number ⟨false, x⟩) ∧
      (overflow ≤ v → x = .infinite) ∧
      (v < overflow → ∃ units, x = .finite units ∧ RoundsTo v (Magnitude.value units) ∧
        Magnitude.value units < range) := by
  obtain ⟨⟨v, hv⟩, hliteral⟩ := number_of_mem ht hk
  have hvalue := hv.ofNumeral
  refine ⟨v, (Decimal.ofNumeral t.lexeme).round.magnitude, ?_, hliteral, ?_, ?_⟩
  · intro w
    constructor
    · intro hw
      exact hv.unique hw
    · rintro rfl
      exact hv
  · intro hover
    rwa [Decimal.round_eq_infinite_iff, hvalue]
  · intro hlt
    cases hx : (Decimal.ofNumeral t.lexeme).round.magnitude with
    | finite units =>
      rw [Decimal.round_eq_finite_iff, hvalue] at hx
      exact ⟨units, rfl, hx⟩
    | infinite =>
      rw [Decimal.round_eq_infinite_iff, hvalue] at hx
      exact absurd hlt (not_lt.mpr hx)

/-- Halfway between two values: the one with the even significand is taken. -/
theorem number_rounded_tie :
    let t : Token := ⟨.number, "9007199254740993".toList,
      some (.number ⟨false, .finite (2 ^ 53 * 2 ^ 1074)⟩), 1⟩
    t ∈ (Scan.ofSource "9007199254740993".toList).tokens ∧ t.kind = .number ∧
      ∃ (v : ℚ) (x : Magnitude), (∀ w, Denotes t.lexeme w ↔ w = v) ∧
        t.literal = some (.number ⟨false, x⟩) ∧
        (overflow ≤ v → x = .infinite) ∧
        (v < overflow → ∃ units, x = .finite units ∧ RoundsTo v (Magnitude.value units) ∧
          Magnitude.value units < range) := by
  have ht : ⟨.number, "9007199254740993".toList,
      some (.number ⟨false, .finite (2 ^ 53 * 2 ^ 1074)⟩), 1⟩ ∈
        (Scan.ofSource "9007199254740993".toList).tokens := by decide +kernel
  exact ⟨ht, rfl, number_rounded ht rfl⟩

end Tokens

end Loxeme
