/-
# What layouts show

A layout writes a decimal by moving the point, or with a power of ten behind it.  `Shows` says what
number such a text shows, and it says so by the places of the digits again; what is shown is the
decimal that was laid out.

* `DenotesScaled` is the form with a power of ten, `Shows` is both forms.
* `denotes_positional` and `denotesScaled_scientific`: wherever the point goes, the value stays.
* `denotes_decimal` and `denotesScaled_decimal`: the exponent of the first digit settles the form.
-/
import Loxeme.Number.Layout
import Loxeme.Proofs.Messages
import Loxeme.Proofs.Numerals
import Mathlib.Data.Int.Log
import Mathlib.Data.List.DropRight
import Mathlib.Data.Rat.Floor

namespace Loxeme

/-! ## 1. What is shown -/

/-- A numeral and a power of ten denote their product: the power has a sign and digits. -/
inductive DenotesScaled : Text → ℚ → Prop
  | raised {t p : Text} {v : ℚ} (h : Denotes t v) (hne : p ≠ []) (hp : ∀ d ∈ p, d.isDigit = true) :
      DenotesScaled (t ++ 'e' :: '+' :: p) (v * 10 ^ placeValue p)
  | lowered {t p : Text} {v : ℚ} (h : Denotes t v) (hne : p ≠ []) (hp : ∀ d ∈ p, d.isDigit = true) :
      DenotesScaled (t ++ 'e' :: '-' :: p) (v / 10 ^ placeValue p)

/-- A text shows a number, with or without a power of ten. -/
def Shows (t : Text) (v : ℚ) : Prop := Denotes t v ∨ DenotesScaled t v

section Unique

variable {t : Text} {v w : ℚ}

/-- Numerals are digits and a point. -/
theorem Denotes.notMem (h : Denotes t v) {c : Char} (hdigit : c.isDigit = false)
    (hpoint : c ≠ '.') : c ∉ t := by
  have hdigits : ∀ {ds : Text}, (∀ d ∈ ds, d.isDigit = true) → c ∉ ds := by
    intro ds hds hc
    rw [hds c hc] at hdigit
    exact absurd hdigit (by decide)
  cases h with
  | whole _ hds => exact hdigits hds
  | fraction _ hds _ hfs => simp [hdigits hds, hdigits hfs, hpoint]

theorem DenotesScaled.mem (h : DenotesScaled t v) : 'e' ∈ t := by
  cases h <;> simp

theorem DenotesScaled.unique (hv : DenotesScaled t v) (hw : DenotesScaled t w) : w = v := by
  have hmark : ∀ {t v}, Denotes t v → 'e' ∉ t := fun h => h.notMem rfl (by decide)
  cases hv with
  | raised hv =>
    generalize htext : _ ++ 'e' :: _ = text at hw
    cases hw with
    | raised hw =>
      obtain ⟨rfl, hrest⟩ := Text.append_cons_inj (hmark hv) (hmark hw) htext
      rw [hv.unique hw, (List.cons.inj hrest).2]
    | lowered hw =>
      obtain ⟨-, hrest⟩ := Text.append_cons_inj (hmark hv) (hmark hw) htext
      exact absurd (List.cons.inj hrest).1 (by decide)
  | lowered hv =>
    generalize htext : _ ++ 'e' :: _ = text at hw
    cases hw with
    | raised hw =>
      obtain ⟨-, hrest⟩ := Text.append_cons_inj (hmark hv) (hmark hw) htext
      exact absurd (List.cons.inj hrest).1 (by decide)
    | lowered hw =>
      obtain ⟨rfl, hrest⟩ := Text.append_cons_inj (hmark hv) (hmark hw) htext
      rw [hv.unique hw, (List.cons.inj hrest).2]

/-- A text shows one number only. -/
theorem Shows.unique (hv : Shows t v) (hw : Shows t w) : w = v := by
  have hboth : ∀ {a b}, Denotes t a → DenotesScaled t b → False :=
    fun ha hb => ha.notMem rfl (by decide) hb.mem
  rcases hv with hv | hv
  · rcases hw with hw | hw
    · exact hv.unique hw
    · exact (hboth hv hw).elim
  · rcases hw with hw | hw
    · exact (hboth hw hv).elim
    · exact hv.unique hw

end Unique

/-! ## 2. Digits -/

theorem isDigit_of_mem_ofNat {n : ℕ} {d : Char} (hd : d ∈ Text.ofNat n) : d.isDigit = true :=
  Nat.isDigit_of_mem_toDigits (by decide) (by decide) hd

theorem placeValue_ofNat (n : ℕ) : placeValue (Text.ofNat n) = n := by
  rw [← digitsValue_eq]
  exact Nat.ofDigitChars_ten_toDigits

theorem isDigit_zero : ∀ d ∈ ['0'], d.isDigit = true := List.all_eq_true.mp rfl

theorem placeValue_zero : placeValue ['0'] = 0 := rfl

namespace Layout

theorem isDigit_of_mem_zeros {n : ℕ} {d : Char} (hd : d ∈ zeros n) : d.isDigit = true := by
  rw [List.eq_of_mem_replicate hd]
  rfl

@[simp] theorem length_zeros (n : ℕ) : (zeros n).length = n := List.length_replicate

@[simp] theorem placeValue_zeros (n : ℕ) : placeValue (zeros n) = 0 := by
  rw [← digitsValue_eq]
  exact Nat.ofDigitChars_replicate_zero

/-- Zeros at the end are all that is taken away. -/
theorem exists_eq_stripZeros_append (digits : Text) :
    ∃ n, digits = stripZeros digits ++ zeros n := by
  refine ⟨(digits.rtakeWhile (· = '0')).length, ?_⟩
  have hzeros : digits.rtakeWhile (· = '0') = zeros (digits.rtakeWhile (· = '0')).length :=
    List.eq_replicate_iff.mpr ⟨rfl, fun d hd => by simpa using List.mem_rtakeWhile_imp hd⟩
  rw [← hzeros]
  exact List.rdropWhile_append_rtakeWhile.symm

/-- The digits that are laid out are those of the coefficient: the zeros that are taken away count
as a power of ten. -/
theorem stripZeros_ofNat {c : ℕ} (hc : 0 < c) :
    stripZeros (Text.ofNat c) ≠ [] ∧ (∀ d ∈ stripZeros (Text.ofNat c), d.isDigit = true) ∧
      ∃ n, (Text.ofNat c).length = (stripZeros (Text.ofNat c)).length + n ∧
        c = placeValue (stripZeros (Text.ofNat c)) * 10 ^ n := by
  obtain ⟨n, hn⟩ := exists_eq_stripZeros_append (Text.ofNat c)
  have hvalue : c = placeValue (stripZeros (Text.ofNat c)) * 10 ^ n := by
    have h := placeValue_ofNat c
    rw [hn, placeValue_append, length_zeros, placeValue_zeros, add_zero] at h
    exact h.symm
  refine ⟨?_, ?_, n, ?_, hvalue⟩
  · intro hnil
    rw [hnil, placeValue_nil, zero_mul] at hvalue
    omega
  · intro d hd
    refine isDigit_of_mem_ofNat (n := c) ?_
    rw [hn]
    exact List.mem_append_left _ hd
  · have h := congrArg List.length hn
    rwa [List.length_append, length_zeros] at h

/-! ## 3. Where the point goes -/

/-- The first digit, and the others behind a point. -/
def mantissa (digits : Text) : Text :=
  digits.take 1 ++ if digits.drop 1 = [] then [] else '.' :: digits.drop 1

/-- The digits of a power of ten: two at least. -/
def powerDigits (e : ℤ) : Text :=
  zeros (2 - (Text.ofNat e.natAbs).length) ++ Text.ofNat e.natAbs

theorem scientific_eq (digits : Text) (e : ℤ) : scientific digits e =
    mantissa digits ++ 'e' :: (if e < 0 then '-' else '+') :: powerDigits e := by
  simp [scientific, mantissa, powerDigits]

theorem placeValue_powerDigits (e : ℤ) : placeValue (powerDigits e) = e.natAbs := by
  rw [powerDigits, placeValue_append, placeValue_zeros, zero_mul, zero_add, placeValue_ofNat]

theorem powerDigits_ne_nil (e : ℤ) : powerDigits e ≠ [] :=
  List.append_ne_nil_of_right_ne_nil _ Nat.toDigits_ne_nil

theorem isDigit_of_mem_powerDigits {e : ℤ} : ∀ d ∈ powerDigits e, d.isDigit = true := by
  intro d hd
  rcases List.mem_append.mp hd with hd | hd
  · exact isDigit_of_mem_zeros hd
  · exact isDigit_of_mem_ofNat hd

section Forms

variable {digits : Text} (hne : digits ≠ []) (hdigits : ∀ d ∈ digits, d.isDigit = true)
include hne hdigits

/-- Zeros in front: the point is far to the left. -/
theorem denotes_zeros_append (n : ℕ) :
    Denotes ("0.".toList ++ zeros n ++ digits)
      (placeValue digits * 10 ^ (-(n + digits.length : ℕ) : ℤ)) := by
  have htext : "0.".toList ++ zeros n ++ digits = ['0'] ++ '.' :: (zeros n ++ digits) := by simp
  have hvalue : (placeValue digits * 10 ^ (-(n + digits.length : ℕ) : ℤ) : ℚ) =
      placeValue ['0'] + placeValue (zeros n ++ digits) / 10 ^ (zeros n ++ digits).length := by
    rw [placeValue_append, placeValue_zeros, zero_mul, zero_add, List.length_append, length_zeros,
      zpow_neg, zpow_natCast, placeValue_zero, Nat.cast_zero, zero_add,
      div_eq_mul_inv]
  rw [htext, hvalue]
  refine .fraction (by simp) isDigit_zero (by simp [hne]) ?_
  intro d hd
  rcases List.mem_append.mp hd with hd | hd
  · exact isDigit_of_mem_zeros hd
  · exact hdigits d hd

/-- Zeros behind: the point is far to the right. -/
theorem denotes_append_zeros (n : ℕ) :
    Denotes (digits ++ zeros n ++ '.' :: ['0']) (placeValue digits * 10 ^ n) := by
  have hvalue : (placeValue digits * 10 ^ n : ℚ) =
      placeValue (digits ++ zeros n) + placeValue ['0'] / 10 ^ ['0'].length := by
    rw [placeValue_append, placeValue_zeros, length_zeros, placeValue_zero]
    simp
  rw [hvalue]
  refine .fraction (by simp [hne]) ?_ (by simp) isDigit_zero
  intro d hd
  rcases List.mem_append.mp hd with hd | hd
  · exact hdigits d hd
  · exact isDigit_of_mem_zeros hd

omit hne in
/-- Digits on both sides. -/
theorem denotes_take_drop {n : ℕ} (hpos : 0 < n) (hlt : n < digits.length) :
    Denotes (digits.take n ++ '.' :: digits.drop n)
      (placeValue digits * 10 ^ (n - digits.length : ℤ)) := by
  have hfraction : (digits.drop n).length = digits.length - n := List.length_drop
  have hvalue : (placeValue digits * 10 ^ (n - digits.length : ℤ) : ℚ) =
      placeValue (digits.take n) + placeValue (digits.drop n) / 10 ^ (digits.drop n).length := by
    have hsplit := placeValue_append (digits.take n) (digits.drop n)
    rw [List.take_append_drop] at hsplit
    have hpower : (n - digits.length : ℤ) = -(digits.drop n).length := by omega
    rw [hpower, zpow_neg, zpow_natCast, hsplit]
    push_cast
    field_simp
  rw [hvalue]
  refine .fraction ?_ (fun d hd => hdigits d (List.mem_of_mem_take hd)) ?_
    fun d hd => hdigits d (List.mem_of_mem_drop hd)
  · exact List.ne_nil_of_length_pos (by rw [List.length_take]; omega)
  · exact List.ne_nil_of_length_pos (by omega)

/-- **Without a power of ten**: wherever the point goes, the value stays. -/
theorem denotes_positional (e : ℤ) :
    Denotes (positional digits e) (placeValue digits * 10 ^ (e + 1 - digits.length)) := by
  unfold positional
  rcases lt_or_ge e 0 with he | he
  · obtain ⟨n, hn⟩ : ∃ n : ℕ, e = -(n + 1) := ⟨(-e - 1).toNat, by omega⟩
    have hzeros : (-e - 1).toNat = n := by omega
    have hpower : e + 1 - digits.length = -(n + digits.length : ℕ) := by omega
    rw [if_pos he, hzeros, hpower]
    exact denotes_zeros_append hne hdigits n
  · rw [if_neg (not_lt.mpr he)]
    obtain ⟨n, rfl⟩ := Int.eq_ofNat_of_zero_le he
    dsimp only
    rw [Int.toNat_natCast]
    rcases Nat.lt_or_ge (n + 1) digits.length with hlt | hge
    · have hdrop : digits.drop (n + 1) ≠ [] := by simpa using hlt
      rw [if_neg hdrop, Nat.sub_eq_zero_of_le hlt.le]
      have h := denotes_take_drop hdigits (Nat.succ_pos n) hlt
      simpa [zeros] using h
    · have hpower : (n : ℤ) + 1 - digits.length = (n + 1 - digits.length : ℕ) := by omega
      rw [if_pos (List.drop_eq_nil_iff.mpr hge), List.take_of_length_le hge, hpower, zpow_natCast]
      exact denotes_append_zeros hne hdigits _

/-- The first digit, and the others behind a point. -/
theorem denotes_mantissa :
    Denotes (mantissa digits) (placeValue digits * 10 ^ (1 - digits.length : ℤ)) := by
  unfold mantissa
  rcases Nat.lt_or_ge 1 digits.length with hlt | hge
  · have hdrop : digits.drop 1 ≠ [] := by
      rw [Ne, List.drop_eq_nil_iff]
      omega
    rw [if_neg hdrop]
    exact_mod_cast denotes_take_drop hdigits Nat.one_pos hlt
  · have hone : digits.length = 1 := by
      have := List.length_pos_iff.mpr hne
      omega
    rw [if_pos (List.drop_eq_nil_iff.mpr hge), List.take_of_length_le hge, List.append_nil, hone]
    simpa using Denotes.whole hne hdigits

/-- **With a power of ten.** -/
theorem denotesScaled_scientific (e : ℤ) :
    DenotesScaled (scientific digits e) (placeValue digits * 10 ^ (e + 1 - digits.length)) := by
  have hten : (10 : ℚ) ≠ 0 := by norm_num
  have hmantissa := denotes_mantissa hne hdigits
  have hsplit : (placeValue digits * 10 ^ (e + 1 - digits.length) : ℚ) =
      placeValue digits * 10 ^ (1 - digits.length : ℤ) * 10 ^ e := by
    rw [mul_assoc, ← zpow_add₀ hten]
    congr 2
    omega
  rw [scientific_eq, hsplit]
  rcases lt_or_ge e 0 with he | he
  · have hpower : (10 : ℚ) ^ e = (10 ^ placeValue (powerDigits e))⁻¹ := by
      rw [placeValue_powerDigits, ← zpow_natCast, ← zpow_neg]
      congr 1
      omega
    rw [if_pos he, hpower, ← div_eq_mul_inv]
    exact .lowered hmantissa (powerDigits_ne_nil e) isDigit_of_mem_powerDigits
  · have hpower : (10 : ℚ) ^ e = 10 ^ placeValue (powerDigits e) := by
      rw [placeValue_powerDigits, ← zpow_natCast]
      congr 1
      omega
    rw [if_neg (not_lt.mpr he), hpower]
    exact .raised hmantissa (powerDigits_ne_nil e) isDigit_of_mem_powerDigits

end Forms

/-! ## 4. The text of a decimal -/

section Decimal

variable (l : Layout) {c : ℕ} (hc : 0 < c) (g : ℤ)
include hc

/-- The power of ten that the first digit counts. -/
theorem log_decimal : Int.log 10 (c * 10 ^ g : ℚ) = g + (Text.ofNat c).length - 1 := by
  have hten : (10 : ℚ) ≠ 0 := by norm_num
  have hstep : (0 : ℚ) < 10 ^ g := by positivity
  have hpos : (0 : ℚ) < c * 10 ^ g := mul_pos (Nat.cast_pos.mpr hc) hstep
  have hlength : 0 < (Text.ofNat c).length := Nat.length_toDigits_pos
  obtain ⟨hlo, hhi⟩ := pow_length_toDigits hc
  have hlog : g + (Text.ofNat c).length - 1 ≤ Int.log 10 (c * 10 ^ g : ℚ) := by
    have hpower : g + (Text.ofNat c).length - 1 = ((Text.ofNat c).length - 1 : ℕ) + g := by omega
    rw [← Int.zpow_le_iff_le_log (by norm_num) hpos, hpower, Nat.cast_ofNat, zpow_add₀ hten,
      mul_le_mul_iff_left₀ hstep, zpow_natCast]
    exact_mod_cast hlo
  have hlog' : Int.log 10 (c * 10 ^ g : ℚ) < g + (Text.ofNat c).length := by
    rw [← Int.lt_zpow_iff_log_lt (by norm_num) hpos, add_comm, Nat.cast_ofNat, zpow_add₀ hten,
      mul_lt_mul_iff_left₀ hstep, zpow_natCast]
    exact_mod_cast hhi
  omega

/-- The digits that are laid out show the value. -/
theorem value_decimal : (placeValue (stripZeros (Text.ofNat c)) *
    10 ^ (Int.log 10 (c * 10 ^ g : ℚ) + 1 - (stripZeros (Text.ofNat c)).length) : ℚ) =
      c * 10 ^ g := by
  obtain ⟨-, -, n, hlength, hvalue⟩ := stripZeros_ofNat hc
  have hpower : Int.log 10 (c * 10 ^ g : ℚ) + 1 - (stripZeros (Text.ofNat c)).length = n + g := by
    rw [log_decimal hc]
    omega
  have hcast : (c : ℚ) = placeValue (stripZeros (Text.ofNat c)) * 10 ^ n := by exact_mod_cast hvalue
  rw [hpower, zpow_add₀ (by norm_num), zpow_natCast, ← mul_assoc, ← hcast]

/-- The power of ten of the first digit decides. -/
theorem decimal_eq : l.decimal ⟨false, c, g⟩ =
    if l.lowest ≤ Int.log 10 (c * 10 ^ g : ℚ) ∧ Int.log 10 (c * 10 ^ g : ℚ) < l.limit then
      positional (stripZeros (Text.ofNat c)) (Int.log 10 (c * 10 ^ g : ℚ))
    else scientific (stripZeros (Text.ofNat c)) (Int.log 10 (c * 10 ^ g : ℚ)) := by
  rw [log_decimal hc, decimal]

/-- **In the range of a layout** a decimal is laid out without a power of ten. -/
theorem denotes_decimal (h : l.lowest ≤ Int.log 10 (c * 10 ^ g : ℚ) ∧
    Int.log 10 (c * 10 ^ g : ℚ) < l.limit) : Denotes (l.decimal ⟨false, c, g⟩) (c * 10 ^ g) := by
  obtain ⟨hne, hdigits, -⟩ := stripZeros_ofNat hc
  have hform := denotes_positional hne hdigits (Int.log 10 (c * 10 ^ g : ℚ))
  rw [value_decimal hc] at hform
  rw [decimal_eq l hc, if_pos h]
  exact hform

/-- **Out of the range** it is laid out with one. -/
theorem denotesScaled_decimal (h : ¬ (l.lowest ≤ Int.log 10 (c * 10 ^ g : ℚ) ∧
    Int.log 10 (c * 10 ^ g : ℚ) < l.limit)) :
    DenotesScaled (l.decimal ⟨false, c, g⟩) (c * 10 ^ g) := by
  obtain ⟨hne, hdigits, -⟩ := stripZeros_ofNat hc
  have hform := denotesScaled_scientific hne hdigits (Int.log 10 (c * 10 ^ g : ℚ))
  rw [value_decimal hc] at hform
  rw [decimal_eq l hc, if_neg h]
  exact hform

end Decimal
end Layout
end Loxeme
