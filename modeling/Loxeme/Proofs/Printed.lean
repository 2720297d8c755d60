/-
# Printed numbers

A finite number literal is shown as a shortest decimal, which rounds to the literal again.  A scan
reads the text back as this number as long as no power of ten is written: the letter in front of a
power starts a word, and what is behind it is a number of its own.

* `startingOn_numeral`: a numeral is scanned as one number, with the value that it rounds to.
* `countNumbers_scaled`: a numeral and a power of ten are scanned as two numbers.
* `shown_finite`: a finite value is shown as a shortest decimal, in one form or the other.
* `number_printed`: what is shown for number literals, and what a scan makes of it.
-/
import Loxeme.Proofs.Layouts
import Loxeme.Proofs.Shortest

namespace Loxeme

open Magnitude (RoundsTo IsShortest range)

/-! ## 1. Scanning what is shown -/

/-- The number tokens of a text. -/
def countNumbers (t : Text) : ℕ := (Scan.ofSource t).tokens.countP fun u => u.kind = .number

/-- A scan of the text gives one number, and the end. -/
def ReadsBack (t : Text) (x : Binary64) : Prop :=
  ∃ u : Token, u.kind = .number ∧ u.literal = some (.number x) ∧
    (Scan.ofSource t).tokens = [u, Token.endOn 1] ∧ (Scan.ofSource t).diagnostics = []

section Scans

variable {t : Text} {v : ℚ}

/-- A numeral is a number piece. -/
theorem Denotes.shaped (h : Denotes t v) : Piece.Shaped ⟨.number, t⟩ := by
  cases h with
  | whole hne hds => exact .whole hne hds
  | fraction hne hds hnf hfs => exact .fraction hne hds hnf hfs

/-- **A numeral is scanned as one number**, if nothing or the letter of a power is behind it. -/
theorem startingOn_numeral (h : Denotes t v) {after : Text} (hafter : ∀ c ∈ after.head?, c = 'e')
    (line : Int) :
    (Scan.startingOn line (t ++ after)).tokens =
        ⟨.number, t, some (.number ⟨false, (Decimal.ofNumeral t).round.magnitude⟩), line⟩ ::
          (Scan.startingOn line after).tokens ∧
      (Scan.startingOn line (t ++ after)).events = (Scan.startingOn line after).events := by
  have hstops : Piece.Stops ⟨.number, t⟩ after := by
    cases after with
    | nil => exact ⟨stopsAt_nil _, Or.inr rfl⟩
    | cons c after =>
      obtain rfl := hafter c rfl
      exact ⟨stopsAt_cons.mpr rfl, Or.inr rfl⟩
  have hlines : Text.newlines t = 0 := List.count_eq_zero.mpr (h.notMem rfl (by decide))
  have hscan := startingOn_append line ⟨h.shaped, hstops⟩
  simp only [Piece.token?, Piece.event?, hlines, Int.natCast_zero, Int.add_zero] at hscan
  rw [← Decimal.round_ofNumeral]
  exact hscan

/-- A numeral by itself. -/
theorem startingOn_numeral_nil (h : Denotes t v) (line : Int) :
    (Scan.startingOn line t).tokens =
        [⟨.number, t, some (.number ⟨false, (Decimal.ofNumeral t).round.magnitude⟩), line⟩,
          Token.endOn line] ∧
      (Scan.startingOn line t).events = [] := by
  have hnone : ∀ c ∈ ([] : Text).head?, c = 'e' := by simp
  have hend : Scan.startingOn line [] = ⟨[Token.endOn line], [], line⟩ := by
    simp [Scan.startingOn, place]
  have hscan := startingOn_numeral h hnone line
  rwa [List.append_nil, hend] at hscan

/-- A power of ten is scanned as a word, a sign and a number. -/
theorem tokens_power {sign : Operator} (hsign : sign = .plus ∨ sign = .minus) {p : Text}
    (hne : p ≠ []) (hp : ∀ d ∈ p, d.isDigit = true) (line : Int) :
    ∃ x, (Scan.startingOn line ('e' :: (sign.spelling ++ p))).tokens =
      [⟨.identifier, ['e'], none, line⟩, ⟨.operator sign, sign.spelling, none, line⟩,
        ⟨.number, p, x, line⟩, Token.endOn line] := by
  have hword : Piece.Fits ⟨.word, ['e']⟩ (sign.spelling ++ p) := by
    refine ⟨.word rfl (by simp), ?_⟩
    rcases hsign with rfl | rfl <;> exact stopsAt_cons.mpr rfl
  have hoperator : Piece.Fits ⟨.operator sign, sign.spelling⟩ p := by
    refine ⟨.operator sign, fun c _ => ?_⟩
    rcases hsign with rfl | rfl <;> rfl
  have hlines : Text.newlines sign.spelling = 0 := by rcases hsign with rfl | rfl <;> rfl
  obtain ⟨hword, -⟩ := startingOn_append line hword
  obtain ⟨hoperator, -⟩ := startingOn_append line hoperator
  obtain ⟨hnumber, -⟩ := startingOn_numeral_nil (.whole hne hp) line
  have hidentifier : Kind.ofWord ['e'] = .identifier := by decide
  have hmark : Text.newlines ['e'] = 0 := rfl
  simp only [hmark, hlines, Int.natCast_zero, Int.add_zero] at hword hoperator
  rw [hoperator, hnumber] at hword
  refine ⟨some (.number ⟨false, (Decimal.ofNumeral p).round.magnitude⟩), hword.trans ?_⟩
  simp [Piece.token?, hidentifier]

theorem countNumbers_power (h : Denotes t v) {sign : Operator}
    (hsign : sign = .plus ∨ sign = .minus) {p : Text} (hne : p ≠ [])
    (hp : ∀ d ∈ p, d.isDigit = true) :
    countNumbers (t ++ 'e' :: (sign.spelling ++ p)) = 2 := by
  have hmark : ∀ c ∈ ('e' :: (sign.spelling ++ p)).head?, c = 'e' := by simp
  obtain ⟨htokens, -⟩ := startingOn_numeral h hmark 1
  obtain ⟨x, hpower⟩ := tokens_power hsign hne hp 1
  rw [countNumbers, Scan.ofSource, htokens, hpower]
  simp [Token.endOn]

/-- **A numeral and a power of ten are scanned as two numbers.** -/
theorem countNumbers_scaled (h : DenotesScaled t v) : countNumbers t = 2 := by
  cases h with
  | raised h hne hp => exact countNumbers_power h (Or.inl rfl) hne hp
  | lowered h hne hp => exact countNumbers_power h (Or.inr rfl) hne hp

/-- **A numeral reads back**, as the value that it rounds to. -/
theorem readsBack_numeral {x : Magnitude} (h : Denotes t v)
    (hx : (Decimal.ofNumeral t).round.magnitude = x) : ReadsBack t ⟨false, x⟩ := by
  obtain ⟨htokens, hevents⟩ := startingOn_numeral_nil h 1
  rw [hx] at htokens
  exact ⟨⟨.number, t, some (.number ⟨false, x⟩), 1⟩, rfl, rfl, htokens,
    congrArg diagnosticsOf hevents⟩

theorem ReadsBack.countNumbers {x : Binary64} (h : ReadsBack t x) : countNumbers t = 1 := by
  obtain ⟨u, hkind, -, htokens, -⟩ := h
  rw [Loxeme.countNumbers, htokens]
  simp [hkind, Token.endOn]

end Scans

/-! ## 2. What is shown for a number -/

theorem Layout.magnitude_of_pos (l : Layout) {units : ℕ} (h : 0 < units) :
    l.magnitude (.finite units) = l.decimal (Magnitude.shortest units) := by
  rw [magnitude]
  exact h.ne'

/-- The sign is shown for negative numbers only. -/
theorem Literal.display_number (x : Magnitude) :
    (number ⟨false, x⟩).display = layout.magnitude x := by
  rw [display, Layout.number, if_neg Bool.false_ne_true, List.nil_append]

/-- Zero is shown with a digit on each side of the point, and none of them counts. -/
theorem shown_zero : Denotes (Literal.layout.magnitude (.finite 0)) 0 ∧ IsShortest 0 0 0 := by
  refine ⟨?_, Magnitude.roundsTo_self Magnitude.isValue_zero, ⟨0, 0, by norm_num, by norm_num⟩,
    fun m v _ _ => Nat.zero_le m, fun v _ _ => by simp⟩
  have h := @Denotes.fraction ['0'] ['0'] (by simp) isDigit_zero (by simp) isDigit_zero
  have hvalue : (placeValue ['0'] + placeValue ['0'] / 10 ^ ['0'].length : ℚ) = 0 := by
    rw [placeValue_zero]
    simp
  rwa [hvalue] at h

/-- **A finite value is shown as a shortest decimal**, and without a power of ten if the first digit
is near the point. -/
theorem shown_finite {units : ℕ} (hvalue : Magnitude.IsValue (Magnitude.value units))
    (hrange : Magnitude.value units < range) :
    ∃ (v : ℚ) (n : ℕ), IsShortest n v (Magnitude.value units) ∧
      (units = 0 ∨ -4 ≤ Int.log 10 v ∧ Int.log 10 v < 16 →
        Denotes (Literal.layout.magnitude (.finite units)) v) ∧
      (¬ (units = 0 ∨ -4 ≤ Int.log 10 v ∧ Int.log 10 v < 16) →
        DenotesScaled (Literal.layout.magnitude (.finite units)) v) := by
  rcases Nat.eq_zero_or_pos units with rfl | hpos
  · obtain ⟨hshown, hshortest⟩ := shown_zero
    rw [Magnitude.value_zero]
    exact ⟨0, 0, hshortest, fun _ => hshown, fun h => absurd (Or.inl rfl) h⟩
  · obtain ⟨hsign, n, hshortest⟩ := Magnitude.shortest_spec hpos hvalue hrange
    rw [Layout.magnitude_of_pos _ hpos]
    generalize Magnitude.shortest units = d at hsign hshortest ⊢
    obtain ⟨negative, c, g⟩ := d
    obtain rfl : negative = false := hsign
    have hc : 0 < c := by
      have h : (0 : ℚ) < c * 10 ^ g := hshortest.rounds.pos (Magnitude.value_pos hpos)
      exact Nat.cast_pos.mp (pos_of_mul_pos_left h (by positivity))
    refine ⟨c * 10 ^ g, n, hshortest, ?_, ?_⟩
    · intro h
      exact Layout.denotes_decimal _ hc g (h.resolve_left hpos.ne')
    · intro h
      exact Layout.denotesScaled_decimal _ hc g fun hmoderate => h (Or.inr hmoderate)

/-- **Printed numbers.**  The text shown for a number literal shows one decimal, a shortest one that
rounds to the literal.  A scan reads the text back if the literal is zero or the first digit of the
decimal is near enough to the point; otherwise, and for infinity, it finds no number or two. -/
theorem number_printed {source : Text} {t : Token} (ht : t ∈ (Scan.ofSource source).tokens)
    (hk : t.kind = .number) :
    ∃ (x : Magnitude) (text : Text), t.literal = some (.number ⟨false, x⟩) ∧
      t.display = Text.unwords [t.kind.name, t.lexeme, text] ∧
      (x = .infinite → countNumbers text ≠ 1) ∧
      ∀ units, x = .finite units →
        ∃ (v : ℚ) (n : ℕ), (∀ w, Shows text w ↔ w = v) ∧
          IsShortest n v (Magnitude.value units) ∧
          (ReadsBack text ⟨false, x⟩ ↔ units = 0 ∨ -4 ≤ Int.log 10 v ∧ Int.log 10 v < 16) ∧
          (¬ (units = 0 ∨ -4 ≤ Int.log 10 v ∧ Int.log 10 v < 16) → countNumbers text ≠ 1) := by
  obtain ⟨-, hliteral⟩ := number_of_mem ht hk
  generalize hround : (Decimal.ofNumeral t.lexeme).round.magnitude = x at hliteral
  refine ⟨x, Literal.layout.magnitude x, hliteral, ?_, ?_, ?_⟩
  · rw [Token.display, hliteral, Option.map_some, Option.getD_some, Literal.display_number]
  · rintro rfl
    decide +kernel
  · rintro units rfl
    obtain ⟨hrounds, hrange⟩ := Decimal.round_eq_finite_iff.mp hround
    obtain ⟨v, n, hshortest, hplain, hscaled⟩ := shown_finite hrounds.isValue hrange
    refine ⟨v, n, ?_, hshortest, ?_, ?_⟩
    · intro w
      have hshows : Shows (Literal.layout.magnitude (.finite units)) v := by
        by_cases h : units = 0 ∨ -4 ≤ Int.log 10 v ∧ Int.log 10 v < 16
        · exact Or.inl (hplain h)
        · exact Or.inr (hscaled h)
      constructor
      · exact hshows.unique
      · rintro rfl
        exact hshows
    · constructor
      · intro hback
        by_contra h
        have hone := hback.countNumbers
        rw [countNumbers_scaled (hscaled h)] at hone
        exact absurd hone (by decide)
      · intro h
        refine readsBack_numeral (hplain h) ?_
        rw [Decimal.round_eq_finite_iff, (hplain h).ofNumeral]
        exact ⟨hshortest.rounds, hrange⟩
    · intro h
      rw [countNumbers_scaled (hscaled h)]
      decide

/-- The least power of ten that is shown as one. -/
theorem number_printed_power :
    let t : Token := ⟨.number, "10000000000000000".toList,
      some (.number ⟨false, .finite (10 ^ 16 * 2 ^ 1074)⟩), 1⟩
    t ∈ (Scan.ofSource "10000000000000000".toList).tokens ∧ t.kind = .number ∧
      t.display = "NUMBER 10000000000000000 1e+16".toList ∧
      ∃ (x : Magnitude) (text : Text), t.literal = some (.number ⟨false, x⟩) ∧
        t.display = Text.unwords [t.kind.name, t.lexeme, text] ∧
        (x = .infinite → countNumbers text ≠ 1) ∧
        ∀ units, x = .finite units →
          ∃ (v : ℚ) (n : ℕ), (∀ w, Shows text w ↔ w = v) ∧
            IsShortest n v (Magnitude.value units) ∧
            (ReadsBack text ⟨false, x⟩ ↔ units = 0 ∨ -4 ≤ Int.log 10 v ∧ Int.log 10 v < 16) ∧
            (¬ (units = 0 ∨ -4 ≤ Int.log 10 v ∧ Int.log 10 v < 16) → countNumbers text ≠ 1) := by
  have ht : ⟨.number, "10000000000000000".toList,
      some (.number ⟨false, .finite (10 ^ 16 * 2 ^ 1074)⟩), 1⟩ ∈
        (Scan.ofSource "10000000000000000".toList).tokens := by decide +kernel
  have hdisplay : Token.display ⟨.number, "10000000000000000".toList,
      some (.number ⟨false, .finite (10 ^ 16 * 2 ^ 1074)⟩), 1⟩ =
        "NUMBER 10000000000000000 1e+16".toList := by decide +kernel
  exact ⟨ht, rfl, hdisplay, number_printed ht rfl⟩

end Loxeme
