/-
# Cuts

`pieces` reads a source from left to right.  This module says which lists of pieces can come
of that, without saying how the reading goes: every piece has the shape of its role
(`Piece.Shaped`), and what follows it could not have made it longer (`Piece.Stops`).

* `Stops.imp`: whoever changes what follows a piece has to look at its first characters only.
* `pieces_append`: a shaped piece that stops where it stands is what is read there.
* `proper_pieces`: whatever is read is shaped and stops.
* `pieces_eq_iff`: so the pieces of a source are its one proper cut.  Whoever wants to know
  how a text is read exhibits a proper cut of it, and no loop is looked at again.
-/
import Loxeme.Piece
import Mathlib.Data.List.TakeWhile

namespace Loxeme

/-! ## 1. Where a run of characters stops -/

/-- The text does not begin with a character of the class. -/
def StopsAt (p : Char → Bool) (t : Text) : Prop := ∀ c ∈ t.head?, p c = false

theorem stopsAt_nil (p : Char → Bool) : StopsAt p [] := by simp [StopsAt]

theorem stopsAt_cons {p : Char → Bool} {c : Char} {t : Text} :
    StopsAt p (c :: t) ↔ p c = false := by simp [StopsAt]

theorem StopsAt.congr {p : Char → Bool} {t u : Text} (h : StopsAt p t) (hhead : t.head? = u.head?) :
    StopsAt p u := by
  rw [StopsAt, ← hhead]
  exact h

theorem stopsAt_dropWhile (p : Char → Bool) (t : Text) : StopsAt p (t.dropWhile p) := by
  intro c hc
  have h := List.head?_dropWhile_not p t
  rw [Option.mem_def.mp hc] at h
  simpa using h

section Runs

variable {p : Char → Bool} {t after : Text}

theorem takeWhile_append_of_stopsAt (ht : ∀ c ∈ t, p c = true) (ha : StopsAt p after) :
    (t ++ after).takeWhile p = t := by
  rw [List.takeWhile_append_of_pos ht]
  cases after with
  | nil => simp
  | cons c after => simp [stopsAt_cons.mp ha]

theorem dropWhile_append_of_stopsAt (ht : ∀ c ∈ t, p c = true) (ha : StopsAt p after) :
    (t ++ after).dropWhile p = after := by
  rw [List.dropWhile_append_of_pos ht]
  cases after with
  | nil => simp
  | cons c after => simp [stopsAt_cons.mp ha]

end Runs

namespace Piece

/-! ## 2. The end of a block comment -/

/-- What closes a block comment. -/
def closing : Text := ['*', '/']

/-- The text holds no `*/`. -/
def Unclosed (t : Text) : Prop := ¬ closing <:+: t

theorem unclosed_cons {c : Char} {t : Text} :
    Unclosed (c :: t) ↔ ¬ (c = '*' ∧ t.head? = some '/') ∧ Unclosed t := by
  rw [Unclosed, Unclosed, List.infix_cons_iff, not_or]
  have h : closing <+: c :: t ↔ c = '*' ∧ t.head? = some '/' := by
    cases t with
    | nil => simp [closing, eq_comm]
    | cons d t => simp [closing, eq_comm]
  rw [h]

/-- The step of `splitClose` at a character that is not the star of a `*/`. -/
theorem splitClose_cons {c : Char} {t : Text} (h : ¬ (c = '*' ∧ t.head? = some '/')) :
    splitClose (c :: t) = (splitClose t).map fun (body, after) => (c :: body, after) := by
  refine splitClose.eq_3 c t ?_
  rintro rest rfl rfl
  exact h ⟨rfl, rfl⟩

/-- The first `*/` is found.  A star of the body may stand right before it, so the body is
looked at with the star that follows. -/
theorem splitClose_append {b : Text} (h : Unclosed (b ++ ['*'])) (after : Text) :
    splitClose (b ++ closing ++ after) = some (b ++ closing, after) := by
  induction b with
  | nil => rfl
  | cons c b ih =>
    obtain ⟨hc, hb⟩ := unclosed_cons.mp h
    have hhead : (b ++ closing ++ after).head? = (b ++ ['*']).head? := by
      cases b <;> rfl
    have hstep := splitClose_cons (c := c) (t := b ++ closing ++ after) (by rw [hhead]; exact hc)
    rw [ih hb] at hstep
    exact hstep

theorem splitClose_eq_none_iff {t : Text} : splitClose t = none ↔ Unclosed t := by
  fun_induction splitClose t with
  | case1 => simp [Unclosed, closing]
  | case2 rest => simp [unclosed_cons]
  | case3 c rest hne ih =>
    have hc : ¬ (c = '*' ∧ rest.head? = some '/') := by
      rintro ⟨rfl, hr⟩
      obtain ⟨tail, rfl⟩ := List.head?_eq_some_iff.mp hr
      exact hne tail rfl rfl
    rw [Option.map_eq_none_iff, ih, unclosed_cons]
    exact ⟨fun h => ⟨hc, h⟩, And.right⟩

theorem exists_of_splitClose {t body after : Text} (h : splitClose t = some (body, after)) :
    ∃ b, body = b ++ closing ∧ Unclosed (b ++ ['*']) := by
  fun_induction splitClose t generalizing body after with
  | case1 => exact absurd h (by simp)
  | case2 rest =>
    simp only [Option.some.injEq, Prod.mk.injEq] at h
    exact ⟨[], h.1.symm, by unfold Unclosed; decide⟩
  | case3 c rest hne ih =>
    simp only [Option.map_eq_some_iff, Prod.mk.injEq, Prod.exists] at h
    obtain ⟨body', after', h', rfl, rfl⟩ := h
    obtain ⟨b, rfl, hb⟩ := ih h'
    refine ⟨c :: b, rfl, unclosed_cons.mpr ⟨?_, hb⟩⟩
    rintro ⟨rfl, hd⟩
    -- the star would have closed the comment already
    have hrest := append_of_splitClose h'
    obtain ⟨d, hd'⟩ : ∃ d, rest = '/' :: d := by
      cases b with
      | nil => exact absurd hd (by decide)
      | cons e b =>
        obtain rfl : e = '/' := by simpa using hd
        exact ⟨_, hrest.symm⟩
    exact hne d rfl hd'

/-! ## 3. Shapes and stops -/

/-- A character by itself that means nothing. -/
def isUnexpected (c : Char) : Bool :=
  !(c = '"' || c.isDigit || isWordStart c || isBlank c || (Operator.ofSpelling? [c]).isSome)

/-- What the text of a piece looks like, by its role. -/
inductive Shaped : Piece → Prop
  | operator (o : Operator) : Shaped ⟨.operator o, o.spelling⟩
  | word {c : Char} {t : Text} (hc : isWordStart c = true) (ht : ∀ d ∈ t, isWordPart d = true) :
      Shaped ⟨.word, c :: t⟩
  | whole {ds : Text} (hne : ds ≠ []) (hds : ∀ d ∈ ds, d.isDigit = true) : Shaped ⟨.number, ds⟩
  | fraction {ds fs : Text} (hne : ds ≠ []) (hds : ∀ d ∈ ds, d.isDigit = true)
      (hnf : fs ≠ []) (hfs : ∀ d ∈ fs, d.isDigit = true) : Shaped ⟨.number, ds ++ '.' :: fs⟩
  | string {b : Text} (hb : '"' ∉ b) : Shaped ⟨.string, '"' :: b ++ ['"']⟩
  | openString {b : Text} (hb : '"' ∉ b) : Shaped ⟨.openString, '"' :: b⟩
  | blank {c : Char} (hc : isBlank c = true) : Shaped ⟨.blank, [c]⟩
  | lineComment {b : Text} (hb : '\n' ∉ b) : Shaped ⟨.lineComment, '/' :: '/' :: b⟩
  | blockComment {b : Text} (hb : Unclosed (b ++ ['*'])) :
      Shaped ⟨.blockComment, '/' :: '*' :: (b ++ closing)⟩
  | openComment {b : Text} (hb : Unclosed b) : Shaped ⟨.openComment, '/' :: '*' :: b⟩
  | unexpected {c : Char} (hc : isUnexpected c = true) : Shaped ⟨.unexpected, [c]⟩

/-- A point that a digit follows: it continues a number that has none yet. -/
def isFraction : Text → Bool
  | '.' :: d :: _ => d.isDigit
  | _ => false

theorem isFraction_cons (c : Char) (w : Text) :
    isFraction (c :: w) = true ↔ c = '.' ∧ ¬ StopsAt Char.isDigit w := by
  cases w with
  | nil => simp [isFraction, stopsAt_nil]
  | cons d w =>
    by_cases hc : c = '.'
    · subst hc
      simp [isFraction, stopsAt_cons]
    · simp [isFraction, hc]

theorem isFraction_cons_eq_false {c : Char} {w : Text} :
    isFraction (c :: w) = false ↔ (c = '.' → StopsAt Char.isDigit w) := by
  rw [← Bool.not_eq_true, isFraction_cons, not_and, not_not]

end Piece

/-- The characters that make something longer of an operator. -/
def Operator.extendedBy : Operator → Char → Bool
  | .bang, c | .equal, c | .greater, c | .less, c => c = '='
  | .slash, c => c = '/' || c = '*'
  | _, _ => false

/-- The characters that make something longer of a piece.  All of them belong to an open string
or an open comment. -/
def Role.extendedBy : Role → Char → Bool
  | .operator o => o.extendedBy
  | .word => isWordPart
  | .number => Char.isDigit
  | .lineComment => (· ≠ '\n')
  | .openString | .openComment => fun _ => true
  | .string | .blank | .blockComment | .unexpected => fun _ => false

namespace Piece

/-- What follows does not make the piece longer. -/
def Stops (p : Piece) (after : Text) : Prop :=
  match p.role with
  | .operator o => StopsAt o.extendedBy after
  | .word => StopsAt isWordPart after
  | .number => StopsAt Char.isDigit after ∧ ('.' ∈ p.text ∨ isFraction after = false)
  | .lineComment => StopsAt (· ≠ '\n') after
  | .openString | .openComment => after = []
  | .string | .blank | .blockComment | .unexpected => True

/-- One character settles where a piece stops, but for a number that has no point yet. -/
theorem stops_iff {p : Piece} {after : Text} :
    p.Stops after ↔ StopsAt p.role.extendedBy after ∧
      (p.role = .number → '.' ∈ p.text ∨ isFraction after = false) := by
  obtain ⟨role, text⟩ := p
  cases role with
  | number => simp [Stops, Role.extendedBy]
  | openString | openComment => cases after <;> simp [Stops, Role.extendedBy, StopsAt]
  | _ => simp [Stops, Role.extendedBy, StopsAt]

/-- A piece that stops in front of one text also does so in front of another that makes nothing
longer than the first does. -/
theorem Stops.imp {p : Piece} {after after' : Text} (h : p.Stops after)
    (hextended : StopsAt p.role.extendedBy after → StopsAt p.role.extendedBy after')
    (hfraction : isFraction after = false → isFraction after' = false) : p.Stops after' := by
  obtain ⟨hone, hpoint⟩ := stops_iff.mp h
  exact stops_iff.mpr ⟨hextended hone, fun hn => (hpoint hn).imp_right hfraction⟩

/-! ## 4. A shaped piece that stops is what is read -/

section Operators

variable {o o' : Operator} {c d : Char} {t after : Text}

/-- An operator is one character, or one and an equals sign. -/
theorem spelling_eq_or (o : Operator) : (∃ c, o.spelling = [c]) ∨ ∃ c, o.spelling = [c, '='] := by
  cases o <;> simp [Operator.spelling]

/-- Operators begin with characters that begin no other piece. -/
theorem spelling_head (h : o.spelling = c :: t) :
    c ≠ '"' ∧ c.isDigit = false ∧ isWordStart c = false ∧ isBlank c = false := by
  cases o <;> (obtain ⟨rfl, -⟩ := List.cons.inj h; decide)

theorem extendedBy_of_spelling (h : o.spelling = [c]) (h' : o'.spelling = [c, d]) :
    o.extendedBy d = true := by
  cases o' <;> simp only [Operator.spelling, List.cons.injEq, reduceCtorEq, and_false,
    and_true] at h'
  all_goals
    obtain ⟨rfl, rfl⟩ := h'
    cases o <;> simp_all [Operator.spelling, Operator.extendedBy]

/-- What makes an operator longer makes an operator of it, except that a slash gets a
comment. -/
theorem spelling_of_extendedBy (ho : o ≠ .slash) (h : o.extendedBy d = true) :
    ∃ o' : Operator, o'.spelling = o.spelling ++ [d] := by
  have hd : d = '=' := by cases o <;> simp_all [Operator.extendedBy]
  subst hd
  cases o with
  | bang => exact ⟨.bangEqual, rfl⟩
  | equal => exact ⟨.equalEqual, rfl⟩
  | greater => exact ⟨.greaterEqual, rfl⟩
  | less => exact ⟨.lessEqual, rfl⟩
  | _ => exact absurd h (by decide)

theorem doubleOperator?_eq_none (h : o.spelling = [c]) (hs : StopsAt o.extendedBy after) :
    doubleOperator? c after = none := by
  cases after with
  | nil => rfl
  | cons d after =>
    rw [doubleOperator?, Option.map_eq_none_iff, Option.eq_none_iff_forall_ne_some]
    intro o' ho'
    have hd := extendedBy_of_spelling h (Operator.ofSpelling?_eq_some_iff.mp ho')
    rw [stopsAt_cons.mp hs] at hd
    exact absurd hd (by simp)

/-- What is read where neither a comment, a string, a number, a word nor a blank begins. -/
theorem first_of_head {rest : Text} (hs : c ≠ '/') (hq : c ≠ '"') (hd : c.isDigit = false)
    (hw : isWordStart c = false) (hb : isBlank c = false) :
    first c rest =
      (doubleOperator? c rest).getD ((singleOperator? c rest).getD (⟨.unexpected, [c]⟩, rest)) := by
  simp [first, hs, hq, hd, hw, hb]

theorem first_slash (hs : StopsAt Operator.slash.extendedBy after) :
    first '/' after = (⟨.operator .slash, ['/']⟩, after) := by
  have h : afterSlash after = (⟨.operator .slash, ['/']⟩, after) := by
    refine afterSlash.eq_3 after ?_ ?_
    · rintro rest rfl
      exact absurd (stopsAt_cons.mp hs) (by decide)
    · rintro rest rfl
      exact absurd (stopsAt_cons.mp hs) (by decide)
  simp [first, h]

theorem first_operator (o : Operator) (hs : StopsAt o.extendedBy after) :
    ∃ c rest, o.spelling ++ after = c :: rest ∧ first c rest = (⟨.operator o, o.spelling⟩, after) := by
  rcases spelling_eq_or o with ⟨c, ho⟩ | ⟨c, ho⟩
  · refine ⟨c, after, by rw [ho]; rfl, ?_⟩
    by_cases hc : c = '/'
    · subst hc
      obtain rfl : o = .slash := Operator.spelling_injective ho
      exact first_slash hs
    · obtain ⟨hq, hd, hw, hb⟩ := spelling_head ho
      have hsingle : singleOperator? c after = some (⟨.operator o, o.spelling⟩, after) := by
        simp [singleOperator?, Operator.ofSpelling?_eq_some_iff.mpr ho, ho]
      rw [first_of_head hc hq hd hw hb, doubleOperator?_eq_none ho hs, hsingle]
      rfl
  · refine ⟨c, '=' :: after, by rw [ho]; rfl, ?_⟩
    have hc : c ≠ '/' := by
      rintro rfl
      cases o <;> simp [Operator.spelling] at ho
    obtain ⟨hq, hd, hw, hb⟩ := spelling_head ho
    have hdouble : doubleOperator? c ('=' :: after) = some (⟨.operator o, o.spelling⟩, after) := by
      simp [doubleOperator?, Operator.ofSpelling?_eq_some_iff.mpr ho, ho]
    rw [first_of_head hc hq hd hw hb, hdouble]
    rfl

end Operators

/-! The classes that words, numbers and blanks begin with have no character in common, and
none of them has a slash or a quote. -/

theorem toNat_le_of_isDigit {c : Char} (h : c.isDigit = true) : c.toNat ≤ '9'.toNat := by
  obtain ⟨-, hle⟩ := Bool.and_eq_true_iff.mp h
  exact UInt32.le_iff_toNat_le.mp (of_decide_eq_true hle)

theorem le_toNat_of_isAlpha {c : Char} (h : c.isAlpha = true) : 'A'.toNat ≤ c.toNat := by
  rcases Bool.or_eq_true_iff.mp h with h | h
  · obtain ⟨hle, -⟩ := of_decide_eq_true h
    exact UInt32.le_iff_toNat_le.mp hle
  · obtain ⟨hle, -⟩ := Bool.and_eq_true_iff.mp h
    exact Nat.le_trans (by decide) (UInt32.le_iff_toNat_le.mp (of_decide_eq_true hle))

theorem isWordStart_disjoint {c : Char} (h : isWordStart c = true) :
    c ≠ '/' ∧ c ≠ '"' ∧ c.isDigit = false := by
  refine ⟨?_, ?_, ?_⟩
  · rintro rfl; revert h; decide
  · rintro rfl; revert h; decide
  · rw [Bool.eq_false_iff]
    intro hd
    have hlt : '9'.toNat < 'A'.toNat := by decide
    simp only [isWordStart, Bool.or_eq_true, decide_eq_true_eq] at h
    rcases h with h | rfl
    · have := toNat_le_of_isDigit hd
      have := le_toNat_of_isAlpha h
      omega
    · exact absurd hd (by decide)

theorem isDigit_disjoint {c : Char} (h : c.isDigit = true) : c ≠ '/' ∧ c ≠ '"' := by
  refine ⟨?_, ?_⟩ <;> (rintro rfl; revert h; decide)

theorem isBlank_cases {c : Char} (h : isBlank c = true) :
    c = ' ' ∨ c = '\t' ∨ c = '\r' ∨ c = '\n' := by
  simpa [isBlank, or_assoc] using h

section Reading

variable {c d : Char} {b t after rest tail : Text}

theorem first_word (hc : isWordStart c = true) (rest : Text) :
    first c rest = (⟨.word, c :: rest.takeWhile isWordPart⟩, rest.dropWhile isWordPart) := by
  obtain ⟨hs, hq, hd⟩ := isWordStart_disjoint hc
  simp [first, afterLetter, hs, hq, hd, hc]

theorem first_digit (hc : c.isDigit = true) (rest : Text) : first c rest = afterDigit c rest := by
  obtain ⟨hs, hq⟩ := isDigit_disjoint hc
  simp [first, hs, hq, hc]

theorem first_blank (hc : isBlank c = true) (rest : Text) : first c rest = (⟨.blank, [c]⟩, rest) := by
  rcases isBlank_cases hc with rfl | rfl | rfl | rfl <;> rfl

theorem first_quote (rest : Text) : first '"' rest = afterQuote rest := rfl

theorem afterDigit_whole (h : isFraction (rest.dropWhile Char.isDigit) = false) :
    afterDigit c rest =
      (⟨.number, c :: rest.takeWhile Char.isDigit⟩, rest.dropWhile Char.isDigit) := by
  unfold afterDigit
  dsimp only
  split
  · rename_i d tail hrest
    rw [hrest] at h
    rw [if_neg (by simpa [isFraction] using h)]
  · rfl

theorem afterDigit_fraction (h : rest.dropWhile Char.isDigit = '.' :: d :: tail)
    (hd : d.isDigit = true) :
    afterDigit c rest =
      (⟨.number, c :: rest.takeWhile Char.isDigit ++ '.' :: d :: tail.takeWhile Char.isDigit⟩,
        tail.dropWhile Char.isDigit) := by
  unfold afterDigit
  dsimp only
  rw [h]
  exact if_pos hd

theorem afterQuote_string (hb : '"' ∉ b) (after : Text) :
    afterQuote (b ++ '"' :: after) = (⟨.string, '"' :: b ++ ['"']⟩, after) := by
  have hall : ∀ c ∈ b, decide (c ≠ '"') = true := by
    intro c hc
    exact decide_eq_true fun h => hb (h ▸ hc)
  have hstop : StopsAt (fun c => decide (c ≠ '"')) ('"' :: after) := stopsAt_cons.mpr (by decide)
  unfold afterQuote
  dsimp only
  rw [takeWhile_append_of_stopsAt hall hstop, dropWhile_append_of_stopsAt hall hstop]

theorem afterQuote_open (hb : '"' ∉ b) : afterQuote b = (⟨.openString, '"' :: b⟩, []) := by
  have hall : ∀ c ∈ b, decide (c ≠ '"') = true := by
    intro c hc
    exact decide_eq_true fun h => hb (h ▸ hc)
  have htake := takeWhile_append_of_stopsAt hall (stopsAt_nil _)
  have hdrop := dropWhile_append_of_stopsAt hall (stopsAt_nil _)
  rw [List.append_nil] at htake hdrop
  unfold afterQuote
  dsimp only
  rw [htake, hdrop]

theorem first_lineComment (hb : '\n' ∉ b) (hs : StopsAt (· ≠ '\n') after) :
    first '/' ('/' :: (b ++ after)) = (⟨.lineComment, '/' :: '/' :: b⟩, after) := by
  have hall : ∀ c ∈ b, decide (c ≠ '\n') = true := by
    intro c hc
    exact decide_eq_true fun h => hb (h ▸ hc)
  simp only [first, if_pos, afterSlash, takeWhile_append_of_stopsAt hall hs,
    dropWhile_append_of_stopsAt hall hs]

theorem first_blockComment (hb : Unclosed (b ++ ['*'])) (after : Text) :
    first '/' ('*' :: (b ++ closing ++ after)) =
      (⟨.blockComment, '/' :: '*' :: (b ++ closing)⟩, after) := by
  simp only [first, if_pos, afterSlash, splitClose_append hb]

theorem first_openComment (hb : Unclosed b) :
    first '/' ('*' :: b) = (⟨.openComment, '/' :: '*' :: b⟩, []) := by
  simp only [first, if_pos, afterSlash, splitClose_eq_none_iff.mpr hb]

theorem isUnexpected_iff :
    isUnexpected c = true ↔ c ≠ '"' ∧ c.isDigit = false ∧ isWordStart c = false ∧
      isBlank c = false ∧ Operator.ofSpelling? [c] = none := by
  simp [isUnexpected, and_assoc]

theorem first_unexpected (hc : isUnexpected c = true) (rest : Text) :
    first c rest = (⟨.unexpected, [c]⟩, rest) := by
  obtain ⟨hq, hd, hw, hb, ho⟩ := isUnexpected_iff.mp hc
  have hs : c ≠ '/' := by rintro rfl; exact absurd ho (by decide)
  have hdouble : doubleOperator? c rest = none := by
    cases rest with
    | nil => rfl
    | cons e rest =>
      rw [doubleOperator?, Option.map_eq_none_iff, Option.eq_none_iff_forall_ne_some]
      intro o h
      have h' := Operator.ofSpelling?_eq_some_iff.mp h
      cases o <;> simp only [Operator.spelling, List.cons.injEq, reduceCtorEq, and_false,
        and_true] at h'
      all_goals
        obtain ⟨rfl, -⟩ := h'
        exact absurd ho (by decide)
  rw [first_of_head hs hq hd hw hb, hdouble]
  simp [singleOperator?, ho]

theorem first_whole (hne : t ≠ []) (ht : ∀ d ∈ t, d.isDigit = true)
    (hs : StopsAt Char.isDigit after) (hf : isFraction after = false) :
    ∃ c rest, t ++ after = c :: rest ∧ first c rest = (⟨.number, t⟩, after) := by
  obtain ⟨c, t, rfl⟩ := List.exists_cons_of_ne_nil hne
  have htail : ∀ d ∈ t, d.isDigit = true := fun d hd => ht d (List.mem_cons_of_mem _ hd)
  have htake := takeWhile_append_of_stopsAt htail hs
  have hdrop := dropWhile_append_of_stopsAt htail hs
  refine ⟨c, t ++ after, rfl, ?_⟩
  rw [first_digit (ht c List.mem_cons_self), afterDigit_whole (by rw [hdrop]; exact hf), htake,
    hdrop]

theorem first_fraction {fs : Text} (hne : t ≠ []) (ht : ∀ d ∈ t, d.isDigit = true)
    (hnf : fs ≠ []) (hfs : ∀ d ∈ fs, d.isDigit = true) (hs : StopsAt Char.isDigit after) :
    ∃ c rest, t ++ '.' :: fs ++ after = c :: rest ∧
      first c rest = (⟨.number, t ++ '.' :: fs⟩, after) := by
  obtain ⟨c, t, rfl⟩ := List.exists_cons_of_ne_nil hne
  obtain ⟨d, fs, rfl⟩ := List.exists_cons_of_ne_nil hnf
  have htail : ∀ d ∈ t, d.isDigit = true := fun d hd => ht d (List.mem_cons_of_mem _ hd)
  have hftail : ∀ e ∈ fs, e.isDigit = true := fun e he => hfs e (List.mem_cons_of_mem _ he)
  have hpoint : StopsAt Char.isDigit ('.' :: d :: (fs ++ after)) := stopsAt_cons.mpr (by decide)
  refine ⟨c, t ++ '.' :: d :: (fs ++ after), by simp, ?_⟩
  rw [first_digit (ht c List.mem_cons_self),
    afterDigit_fraction (dropWhile_append_of_stopsAt htail hpoint) (hfs d List.mem_cons_self),
    takeWhile_append_of_stopsAt htail hpoint, takeWhile_append_of_stopsAt hftail hs,
    dropWhile_append_of_stopsAt hftail hs]

end Reading

/-- A piece that can be read in front of a text. -/
def Fits (p : Piece) (after : Text) : Prop := p.Shaped ∧ p.Stops after

/-- **A shaped piece that stops is what is read.** -/
theorem first_of_fits {p : Piece} {after : Text} (h : p.Fits after) :
    ∃ c rest, p.text ++ after = c :: rest ∧ first c rest = (p, after) := by
  obtain ⟨hp, hs⟩ := h
  cases hp with
  | operator o => exact first_operator o hs
  | @word c t hc ht =>
    refine ⟨c, t ++ after, rfl, ?_⟩
    rw [first_word hc, takeWhile_append_of_stopsAt ht hs, dropWhile_append_of_stopsAt ht hs]
  | @whole ds hne hds =>
    have hpoint : '.' ∉ ds := fun h => absurd (hds _ h) (by decide)
    exact first_whole hne hds hs.1 (hs.2.resolve_left hpoint)
  | fraction hne hds hnf hfs => exact first_fraction hne hds hnf hfs hs.1
  | @string b hb =>
    refine ⟨'"', b ++ '"' :: after, by simp, ?_⟩
    rw [first_quote, afterQuote_string hb]
  | @openString b hb =>
    obtain rfl : after = [] := hs
    refine ⟨'"', b, by simp, ?_⟩
    rw [first_quote, afterQuote_open hb]
  | @blank c hc => exact ⟨c, after, rfl, first_blank hc after⟩
  | @lineComment b hb => exact ⟨'/', '/' :: (b ++ after), rfl, first_lineComment hb hs⟩
  | @blockComment b hb =>
    exact ⟨'/', '*' :: (b ++ closing ++ after), rfl, first_blockComment hb after⟩
  | @openComment b hb =>
    obtain rfl : after = [] := hs
    exact ⟨'/', '*' :: b, by simp, first_openComment hb⟩
  | @unexpected c hc => exact ⟨c, after, rfl, first_unexpected hc after⟩

theorem pieces_append {p : Piece} {after : Text} (h : p.Fits after) :
    pieces (p.text ++ after) = p :: pieces after := by
  obtain ⟨c, rest, htext, hfirst⟩ := first_of_fits h
  rw [htext, pieces_cons, hfirst]

/-! ## 5. Whatever is read is shaped and stops -/

section Fitting

variable {c : Char} {rest : Text}

theorem fits_afterSlash (rest : Text) : (afterSlash rest).1.Fits (afterSlash rest).2 := by
  unfold afterSlash
  split
  · rename_i rest
    refine ⟨.lineComment ?_, stopsAt_dropWhile _ rest⟩
    intro h
    exact absurd (List.mem_takeWhile_imp h) (by decide)
  · rename_i rest
    split
    · rename_i body after h
      obtain ⟨b, rfl, hb⟩ := exists_of_splitClose h
      exact ⟨.blockComment hb, trivial⟩
    · rename_i h
      exact ⟨.openComment (splitClose_eq_none_iff.mp h), rfl⟩
  · rename_i hline hblock
    refine ⟨.operator .slash, ?_⟩
    cases rest with
    | nil => exact stopsAt_nil _
    | cons c rest =>
      have hslash : c ≠ '/' := by rintro rfl; exact hline rest rfl
      have hstar : c ≠ '*' := by rintro rfl; exact hblock rest rfl
      exact stopsAt_cons.mpr (by simp [Operator.extendedBy, hslash, hstar])

theorem fits_afterQuote (rest : Text) : (afterQuote rest).1.Fits (afterQuote rest).2 := by
  have hbody : '"' ∉ rest.takeWhile (· ≠ '"') := by
    intro h
    exact absurd (List.mem_takeWhile_imp h) (by decide)
  unfold afterQuote
  dsimp only
  split
  · exact ⟨.openString hbody, rfl⟩
  · rename_i quote after h
    have hquote : StopsAt (· ≠ '"') (quote :: after) := h ▸ stopsAt_dropWhile _ rest
    obtain rfl : quote = '"' := by simpa using stopsAt_cons.mp hquote
    exact ⟨.string hbody, trivial⟩

theorem fits_afterDigit (hc : c.isDigit = true) (rest : Text) :
    (afterDigit c rest).1.Fits (afterDigit c rest).2 := by
  have hdigits : ∀ t : Text, ∀ d ∈ t.takeWhile Char.isDigit, d.isDigit = true :=
    fun t d hd => List.mem_takeWhile_imp hd
  have hwhole : ∀ d ∈ c :: rest.takeWhile Char.isDigit, d.isDigit = true := by
    intro d hd
    rcases List.mem_cons.mp hd with rfl | hd
    · exact hc
    · exact hdigits rest d hd
  by_cases hf : isFraction (rest.dropWhile Char.isDigit) = true
  · obtain ⟨d, tail, hrest, hd⟩ :
        ∃ d tail, rest.dropWhile Char.isDigit = '.' :: d :: tail ∧ d.isDigit = true := by
      revert hf
      unfold isFraction
      split
      · rename_i d tail h
        exact fun hd => ⟨d, tail, h, hd⟩
      · exact fun h => absurd h (by simp)
    rw [afterDigit_fraction hrest hd]
    refine ⟨.fraction (by simp) hwhole (by simp) ?_, stopsAt_dropWhile _ _, Or.inl (by simp)⟩
    intro e he
    rcases List.mem_cons.mp he with rfl | he
    · exact hd
    · exact hdigits tail e he
  · have hf' : isFraction (rest.dropWhile Char.isDigit) = false := by simpa using hf
    rw [afterDigit_whole hf']
    exact ⟨.whole (by simp) hwhole, stopsAt_dropWhile _ _, Or.inr hf'⟩

theorem fits_of_doubleOperator? {r : Piece × Text} (h : doubleOperator? c rest = some r) :
    r.1.Fits r.2 := by
  cases rest with
  | nil => exact absurd h (by simp [doubleOperator?])
  | cons d rest =>
    simp only [doubleOperator?, Option.map_eq_some_iff] at h
    obtain ⟨o, ho, rfl⟩ := h
    have hspell := Operator.ofSpelling?_eq_some_iff.mp ho
    refine ⟨by rw [← hspell]; exact .operator o, ?_⟩
    cases o <;> simp [Operator.spelling] at hspell <;>
      (intro e _; rfl)

theorem fits_of_singleOperator? {r : Piece × Text} (hd : doubleOperator? c rest = none)
    (hc : c ≠ '/') (h : singleOperator? c rest = some r) : r.1.Fits r.2 := by
  simp only [singleOperator?, Option.map_eq_some_iff] at h
  obtain ⟨o, ho, rfl⟩ := h
  have hspell := Operator.ofSpelling?_eq_some_iff.mp ho
  refine ⟨by rw [← hspell]; exact .operator o, ?_⟩
  cases rest with
  | nil => exact stopsAt_nil _
  | cons d rest =>
    rw [doubleOperator?, Option.map_eq_none_iff] at hd
    refine stopsAt_cons.mpr ?_
    rw [Bool.eq_false_iff]
    intro he
    have hslash : o ≠ .slash := by
      rintro rfl
      exact hc (List.cons.inj hspell).1.symm
    obtain ⟨o', ho'⟩ := spelling_of_extendedBy hslash he
    rw [hspell, List.singleton_append] at ho'
    rw [← ho', Operator.ofSpelling?_spelling] at hd
    exact absurd hd (by simp)

/-- **Whatever is read is shaped and stops.** -/
theorem fits_first (c : Char) (rest : Text) : (first c rest).1.Fits (first c rest).2 := by
  unfold first
  split
  · exact fits_afterSlash rest
  rename_i hs
  split
  · exact fits_afterQuote rest
  rename_i hq
  split
  · rename_i hd; exact fits_afterDigit hd rest
  rename_i hd
  split
  · rename_i hw
    refine ⟨.word hw fun d hd => List.mem_takeWhile_imp hd, stopsAt_dropWhile _ rest⟩
  rename_i hw
  split
  · rename_i hb; exact ⟨.blank hb, trivial⟩
  rename_i hb
  cases hdouble : doubleOperator? c rest with
  | some r => exact fits_of_doubleOperator? hdouble
  | none =>
    cases hsingle : singleOperator? c rest with
    | some r => exact fits_of_singleOperator? hdouble hs hsingle
    | none =>
      rw [singleOperator?, Option.map_eq_none_iff] at hsingle
      refine ⟨.unexpected (isUnexpected_iff.mpr ⟨hq, ?_, ?_, ?_, hsingle⟩), trivial⟩
      · simpa using hd
      · simpa using hw
      · simpa using hb

end Fitting

/-! ## 6. Cuts -/

/-- The pieces stand one after the other as they are read. -/
def Proper : List Piece → Prop
  | [] => True
  | p :: ps => p.Fits (ps.map text).flatten ∧ Proper ps

theorem Proper.fits {before after : List Piece} {p : Piece} (h : Proper (before ++ p :: after)) :
    p.Fits (after.map text).flatten := by
  induction before with
  | nil => exact h.1
  | cons q before ih => exact ih h.2

/-- Every piece has a character. -/
theorem Shaped.text_ne_nil {p : Piece} (h : p.Shaped) : p.text ≠ [] := by
  cases h with
  | operator o => cases o <;> simp [Operator.spelling]
  | whole hne _ => exact hne
  | _ => simp

/-- At the end of a source every shaped piece stops. -/
theorem Shaped.fits_nil {p : Piece} (h : p.Shaped) : p.Fits [] := by
  refine ⟨h, ?_⟩
  cases h with
  | operator o => exact stopsAt_nil _
  | word _ _ => exact stopsAt_nil _
  | whole _ _ => exact ⟨stopsAt_nil _, Or.inr rfl⟩
  | fraction _ _ _ _ => exact ⟨stopsAt_nil _, Or.inr rfl⟩
  | lineComment _ => exact stopsAt_nil _
  | openString _ => rfl
  | openComment _ => rfl
  | _ => trivial

/-- The text of a shaped piece determines its role. -/
theorem Shaped.eq_of_text {p q : Piece} (hp : p.Shaped) (hq : q.Shaped) (h : p.text = q.text) :
    p = q := by
  have hp' := pieces_append hp.fits_nil
  rw [h, pieces_append hq.fits_nil] at hp'
  exact (List.cons.inj hp').1.symm

end Piece

theorem proper_pieces (t : Text) : Piece.Proper (pieces t) := by
  fun_induction pieces t with
  | case1 => trivial
  | case2 c rest ih =>
    refine ⟨?_, ih⟩
    rw [flatten_text_pieces]
    exact Piece.fits_first c rest

theorem text_ne_nil_of_mem_pieces {t : Text} {p : Piece} (hp : p ∈ pieces t) : p.text ≠ [] := by
  obtain ⟨before, after, h⟩ := List.append_of_mem hp
  exact (h ▸ proper_pieces t).fits.1.text_ne_nil

theorem pieces_of_proper {ps : List Piece} (h : Piece.Proper ps) :
    pieces (ps.map Piece.text).flatten = ps := by
  induction ps with
  | nil => simp
  | cons p ps ih =>
    rw [List.map_cons, List.flatten_cons, Piece.pieces_append h.1, ih h.2]

/-- **The pieces of a source are its one proper cut.** -/
theorem pieces_eq_iff {t : Text} {ps : List Piece} :
    pieces t = ps ↔ (ps.map Piece.text).flatten = t ∧ Piece.Proper ps := by
  constructor
  · rintro rfl
    exact ⟨flatten_text_pieces t, proper_pieces t⟩
  · rintro ⟨rfl, h⟩
    exact pieces_of_proper h

end Loxeme
