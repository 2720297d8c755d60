/-
# Messages

A message quotes what it is about, and what it quotes can be told back from it.  No message takes
more than one line, so neither does a diagnostic.

* `Text.hexValue` and `Text.unescape` undo the two steps of an escape (`hexValue_hex`,
  `unescape_escape`).
* `message_unexpected_injective`: two stray characters are reported in different words.
* `newline_notMem_message`, `Diagnostic.newline_notMem_display`: messages and diagnostics stay on
  their line.
* `Diagnostic.display_injective`: a diagnostic can be told back from what is shown for it.
-/
import Loxeme.Diagnostic
import Mathlib.Data.List.Basic
import Mathlib.Tactic.Common

namespace Loxeme

namespace Text

/-! ## 1. Texts up to a mark -/

/-- Two texts with the same first mark agree on both sides of it. -/
theorem append_cons_inj {c : Char} {t t' u u' : Text} (ht : c ∉ t) (ht' : c ∉ t')
    (h : t ++ c :: u = t' ++ c :: u') : t = t' ∧ u = u' := by
  induction t generalizing t' with
  | nil =>
    cases t' with
    | nil => exact ⟨rfl, (List.cons.inj h).2⟩
    | cons d t' =>
      obtain ⟨rfl, -⟩ := List.cons.inj h
      exact absurd List.mem_cons_self ht'
  | cons d t ih =>
    cases t' with
    | nil =>
      obtain ⟨rfl, -⟩ := List.cons.inj h
      exact absurd List.mem_cons_self ht
    | cons e t' =>
      obtain ⟨rfl, htail⟩ := List.cons.inj h
      obtain ⟨rfl, hu⟩ :=
        ih (List.not_mem_of_not_mem_cons ht) (List.not_mem_of_not_mem_cons ht') htail
      exact ⟨rfl, hu⟩

/-! ## 2. Numbers -/

/-- An integer is written with digits and a minus sign. -/
theorem mem_ofInt {n : Int} {c : Char} (h : c ∈ ofInt n) : c = '-' ∨ c.isDigit = true := by
  have hdigit : ∀ m, c ∈ ofNat m → c.isDigit = true :=
    fun m hm => Nat.isDigit_of_mem_toDigits (by decide) (by decide) hm
  cases n with
  | ofNat m => exact Or.inr (hdigit m h)
  | negSucc m =>
    rcases List.mem_cons.mp h with rfl | h
    · exact Or.inl rfl
    · exact Or.inr (hdigit (m + 1) h)

theorem notMem_ofInt {c : Char} (hminus : c ≠ '-') (hdigit : c.isDigit = false) (n : Int) :
    c ∉ ofInt n := by
  intro h
  rcases mem_ofInt h with rfl | h
  · exact hminus rfl
  · rw [hdigit] at h
    exact Bool.noConfusion h

theorem ofNat_injective {m n : Nat} (h : ofNat m = ofNat n) : m = n := by
  have hvalue : ∀ k, Nat.ofDigitChars 10 (ofNat k) 0 = k :=
    fun k => Nat.ofDigitChars_toDigits (by decide) (by decide)
  rw [← hvalue m, h, hvalue n]

/-- **An integer can be read back.** -/
theorem ofInt_injective {m n : Int} (h : ofInt m = ofInt n) : m = n := by
  -- a number without its sign starts with a digit
  have hsign : ∀ k l : Nat, ofNat k ≠ '-' :: ofNat l := by
    intro k l heq
    have hmem : '-' ∈ ofInt (.ofNat k) := by
      rw [show ofInt (.ofNat k) = '-' :: ofNat l from heq]
      exact List.mem_cons_self
    have hdigit : '-'.isDigit = true := Nat.isDigit_of_mem_toDigits (by decide) (by decide) hmem
    exact absurd hdigit (by decide)
  cases m with
  | ofNat k =>
    cases n with
    | ofNat l => exact congrArg Int.ofNat (ofNat_injective h)
    | negSucc l => exact absurd h (hsign k (l + 1))
  | negSucc k =>
    cases n with
    | ofNat l => exact absurd h.symm (hsign l (k + 1))
    | negSucc l =>
      have hkl : k + 1 = l + 1 := ofNat_injective (List.cons.inj h).2
      exact congrArg Int.negSucc (Nat.succ.inj hkl)

/-! ## 3. Hexadecimal -/

/-- The value of a hexadecimal digit. -/
def hexDigitValue (c : Char) : Nat :=
  if c.isDigit then c.toNat - '0'.toNat else c.toNat - 'a'.toNat + 10

/-- The value of a number in hexadecimal. -/
def hexValue (t : Text) : Nat := t.foldl (fun n c => 16 * n + hexDigitValue c) 0

theorem hexDigitValue_digitChar {d : Nat} (h : d < 16) : hexDigitValue (Nat.digitChar d) = d := by
  have hall : ∀ d ∈ List.range 16, hexDigitValue (Nat.digitChar d) = d := by decide
  exact hall d (List.mem_range.mpr h)

theorem hexValue_concat (t : Text) (c : Char) :
    hexValue (t ++ [c]) = 16 * hexValue t + hexDigitValue c := by
  simp [hexValue]

theorem hexValue_toDigits (n : Nat) : hexValue (Nat.toDigits 16 n) = n := by
  induction n using Nat.strongRecOn with
  | ind n ih =>
    rw [Nat.toDigits_eq_if (by decide)]
    split
    · rename_i hn
      simp [hexValue, hexDigitValue_digitChar hn]
    · rename_i hn
      rw [hexValue_concat, ih (n / 16) (by omega),
        hexDigitValue_digitChar (Nat.mod_lt n (by decide))]
      omega

/-- Every digit of a number in hexadecimal is one of the sixteen. -/
theorem mem_toDigits {n : Nat} {c : Char} (h : c ∈ Nat.toDigits 16 n) :
    c ∈ "0123456789abcdef".toList := by
  have hall : ∀ d ∈ List.range 16, Nat.digitChar d ∈ "0123456789abcdef".toList := by decide
  have hdigit : ∀ d, d < 16 → Nat.digitChar d ∈ "0123456789abcdef".toList :=
    fun d hd => hall d (List.mem_range.mpr hd)
  induction n using Nat.strongRecOn with
  | ind n ih =>
    rw [Nat.toDigits_eq_if (by decide)] at h
    split at h
    · rename_i hn
      rw [List.mem_singleton.mp h]
      exact hdigit n hn
    · rename_i hn
      rcases List.mem_append.mp h with h | h
      · exact ih (n / 16) (by omega) h
      · rw [List.mem_singleton.mp h]
        exact hdigit (n % 16) (Nat.mod_lt n (by decide))

/-- **The padding does not count.** -/
theorem hexValue_hex (width n : Nat) : hexValue (hex width n) = n := by
  have hzeros : ∀ k, (List.replicate k '0').foldl (fun n c => 16 * n + hexDigitValue c) 0 = 0 := by
    intro k
    induction k with
    | zero => rfl
    | succ k ih => exact ih
  rw [hex, hexValue, List.foldl_append, hzeros]
  exact hexValue_toDigits n

theorem newline_notMem_hex (width n : Nat) : '\n' ∉ hex width n := by
  intro h
  rcases List.mem_append.mp h with h | h
  · exact absurd (List.eq_of_mem_replicate h) (by decide)
  · exact absurd (mem_toDigits h) (by decide)

/-! ## 4. Escapes -/

/-- The character that an escape stands for. -/
def unescape : Text → Char
  | [c] => c
  | '\\' :: 't' :: _ => '\t'
  | '\\' :: 'n' :: _ => '\n'
  | '\\' :: 'r' :: _ => '\r'
  | '\\' :: 'x' :: digits => Char.ofNat (hexValue digits)
  | '\\' :: 'u' :: digits => Char.ofNat (hexValue digits)
  | '\\' :: 'U' :: digits => Char.ofNat (hexValue digits)
  | '\\' :: c :: _ => c
  | _ => '\\'

/-- One of the two characters that quoted texts are put between. -/
def IsQuote (c : Char) : Prop := c = '\x27' ∨ c = '"'

theorem isQuote_quoteFor (t : Text) : IsQuote (quoteFor t) := by
  rw [quoteFor]
  split
  · exact Or.inr rfl
  · exact Or.inl rfl

theorem unescape_codeEscape (c : Char) : unescape (codeEscape c) = c := by
  have hvalue : ∀ width, Char.ofNat (hexValue (hex width c.toNat)) = c := by
    intro width
    rw [hexValue_hex, Char.ofNat_toNat]
  rw [codeEscape]
  split
  · exact hvalue 2
  split
  · exact hvalue 4
  · exact hvalue 8

/-- **An escape tells the character that it stands for.** -/
theorem unescape_escape {quote : Char} (hq : IsQuote quote) (c : Char) :
    unescape (escape quote c) = c := by
  rw [escape]
  split
  · rename_i h
    rcases h with rfl | rfl
    · rfl
    · rcases hq with rfl | rfl <;> rfl
  split
  · rename_i h
    exact h.symm
  split
  · rename_i h
    exact h.symm
  split
  · rename_i h
    exact h.symm
  split
  · rfl
  · exact unescape_codeEscape c

theorem newline_notMem_codeEscape (c : Char) : '\n' ∉ codeEscape c := by
  have hhex : ∀ (mark : Char) (width : Nat), '\n' ≠ mark →
      '\n' ∉ ['\\', mark] ++ hex width c.toNat := by
    intro mark width hmark h
    rcases List.mem_append.mp h with h | h
    · simp [hmark] at h
    · exact newline_notMem_hex width c.toNat h
  rw [codeEscape]
  split
  · exact hhex 'x' 2 (by decide)
  split
  · exact hhex 'u' 4 (by decide)
  · exact hhex 'U' 8 (by decide)

theorem newline_notMem_escape {quote : Char} (hq : IsQuote quote) (c : Char) :
    '\n' ∉ escape quote c := by
  rw [escape]
  split
  · rename_i h
    rcases h with rfl | rfl
    · decide
    · rcases hq with rfl | rfl <;> decide
  split
  · decide
  split
  · decide
  split
  · decide
  split
  · rename_i hn _ _
    simpa using Ne.symm hn
  · exact newline_notMem_codeEscape c

/-- **A quoted text stays on one line.** -/
theorem newline_notMem_quoted (t : Text) : '\n' ∉ quoted t := by
  have hq := isQuote_quoteFor t
  have hquote : '\n' ≠ quoteFor t := by
    rcases hq with h | h <;> rw [h] <;> decide
  have hbody : '\n' ∉ t.flatMap (escape (quoteFor t)) := by
    intro h
    obtain ⟨c, -, hc⟩ := List.mem_flatMap.mp h
    exact newline_notMem_escape hq c hc
  simp [quoted, hquote, hbody]

/-- **A quoted character tells the character.** -/
theorem quoted_singleton_injective {c c' : Char} (h : quoted [c] = quoted [c']) : c = c' := by
  have hquoted : ∀ d, quoted [d] = quoteFor [d] :: (escape (quoteFor [d]) d ++ [quoteFor [d]]) := by
    intro d
    simp [quoted]
  rw [hquoted, hquoted] at h
  obtain ⟨hquote, hbody⟩ := List.cons.inj h
  rw [← hquote] at hbody
  have hq := isQuote_quoteFor [c]
  rw [← unescape_escape hq c, List.append_cancel_right hbody, unescape_escape hq c']

end Text

/-! ## 5. Messages -/

/-- **Two stray characters are reported in different words.** -/
theorem Fault.message_unexpected_injective {c c' : Char}
    (h : (Fault.unexpected c).message = (Fault.unexpected c').message) : c = c' :=
  Text.quoted_singleton_injective (List.append_cancel_left (List.append_cancel_right h))

/-- A stray character is reported in other words than a string that is not closed. -/
theorem Fault.message_unexpected_ne (c : Char) :
    (unexpected c).message ≠ unterminatedString.message := by
  intro h
  have hx : 'x' ∈ (unexpected c).message :=
    List.mem_append_left _ (List.mem_append_left _ (by decide))
  rw [h] at hx
  exact absurd hx (by decide)

/-- **No message takes more than one line.** -/
theorem Fault.newline_notMem_message (f : Fault) : '\n' ∉ f.message := by
  cases f with
  | unexpected c =>
    refine List.not_mem_append (List.not_mem_append ?_ ?_) ?_
    · decide
    · exact Text.newline_notMem_quoted [c]
    · decide
  | unterminatedString => decide

namespace Diagnostic

theorem newline_notMem_display {d : Diagnostic} (h : '\n' ∉ d.message) : '\n' ∉ d.display := by
  refine List.not_mem_append (List.not_mem_append (List.not_mem_append ?_ ?_) ?_) h
  · decide
  · exact Text.notMem_ofInt (by decide) rfl d.line
  · decide

/-- The bracket ends the line number. -/
theorem display_eq (d : Diagnostic) : d.display =
    "[line ".toList ++ (Text.ofInt d.line ++ ']' :: (" Error: ".toList ++ d.message)) :=
  -- stated for any texts, since a literal text is slow to take apart
  have hmark : ∀ {c : Char} {opening n closing rest : Text},
      opening ++ n ++ (c :: closing) ++ rest = opening ++ (n ++ c :: (closing ++ rest)) := by simp
  hmark

/-- **A diagnostic can be told back from what is shown for it.** -/
theorem display_injective {d d' : Diagnostic} (h : d.display = d'.display) : d = d' := by
  have hbracket : ∀ n, ']' ∉ Text.ofInt n := Text.notMem_ofInt (by decide) rfl
  rw [display_eq, display_eq] at h
  obtain ⟨hline, hmessage⟩ :=
    Text.append_cons_inj (hbracket _) (hbracket _) (List.append_cancel_left h)
  obtain ⟨line, message⟩ := d
  obtain ⟨line', message'⟩ := d'
  obtain rfl : line = line' := Text.ofInt_injective hline
  obtain rfl : message = message' := List.append_cancel_left hmessage
  rfl

end Diagnostic
end Loxeme
