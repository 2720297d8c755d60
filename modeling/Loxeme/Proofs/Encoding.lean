/-
# Encoded texts

Decoding undoes encoding, whatever the text and whatever follows it.  A character takes one to
four bytes; its first byte tells how many more there are, and these are within the bounds that
the first byte sets.

* `Lead.of?_eq_two`, `Lead.of?_eq_three` and `Lead.of?_eq_four` are the table of lead bytes by the
  number of bytes; `Lead.of?_two`, `Lead.of?_three` and `Lead.of?_four` read it for a character.
* `first_encode` reads one character back, and `decode_encode_append` a whole text.
-/
import Loxeme.Text.Utf8

namespace Loxeme.Utf8

/-! ## 1. The first byte of a character -/

section Table

variable {n : Nat}

theorem Lead.of?_eq_two (h : 0xC2 ≤ n) (h' : n < 0xE0) :
    Lead.of? n = some ⟨n - 0xC0, 1, 0x80, 0xBF⟩ := by
  rw [Lead.of?, if_neg (by omega), if_pos h']

/-- The table of the leads of three bytes, with its two exceptions. -/
theorem Lead.of?_eq_three (h : 0xE0 ≤ n) (h' : n < 0xF0) :
    Lead.of? n =
      some ⟨n - 0xE0, 2, if n = 0xE0 then 0xA0 else 0x80, if n = 0xED then 0x9F else 0xBF⟩ := by
  by_cases hE0 : n = 0xE0
  · subst hE0
    rfl
  by_cases hED : n = 0xED
  · subst hED
    rfl
  rw [Lead.of?, if_neg (by omega), if_neg (by omega), if_neg hE0, if_neg hED, if_pos h',
    if_neg hE0, if_neg hED]

/-- The table of the leads of four bytes, with its two exceptions. -/
theorem Lead.of?_eq_four (h : 0xF0 ≤ n) (h' : n ≤ 0xF4) :
    Lead.of? n =
      some ⟨n - 0xF0, 3, if n = 0xF0 then 0x90 else 0x80, if n = 0xF4 then 0x8F else 0xBF⟩ := by
  by_cases hF0 : n = 0xF0
  · subst hF0
    rfl
  by_cases hF4 : n = 0xF4
  · subst hF4
    rfl
  rw [Lead.of?, if_neg (by omega), if_neg (by omega), if_neg (by omega), if_neg (by omega),
    if_neg (by omega), if_neg hF0, if_pos (by omega), if_neg hF0, if_neg hF4]

end Table

section Lead

variable {v : Nat}

theorem Lead.of?_two (h : 0x80 ≤ v) (h' : v ≤ 0x7FF) :
    Lead.of? (v / 64 + 0xC0) = some ⟨v / 64, 1, 0x80, 0xBF⟩ := by
  rw [Lead.of?_eq_two (by omega) (by omega), Nat.add_sub_cancel]

/-- Three bytes: the second byte is bounded from below where the code point could be written
with two, and from above where it could be a surrogate. -/
theorem Lead.of?_three (h : 0x800 ≤ v) (h' : v ≤ 0xFFFF) (hs : v < 0xD800 ∨ 0xDFFF < v) :
    ∃ low high, Lead.of? (v / 4096 + 0xE0) = some ⟨v / 4096, 2, low, high⟩ ∧
      low ≤ v / 64 % 64 + 0x80 ∧ v / 64 % 64 + 0x80 ≤ high := by
  have htable := Lead.of?_eq_three (n := v / 4096 + 0xE0) (by omega) (by omega)
  rw [Nat.add_sub_cancel] at htable
  refine ⟨_, _, htable, ?_, ?_⟩ <;> (split <;> omega)

/-- Four bytes: the second byte is bounded from below where the code point could be written with
three, and from above where it could be past the last one. -/
theorem Lead.of?_four (h : 0x10000 ≤ v) (h' : v ≤ 0x10FFFF) :
    ∃ low high, Lead.of? (v / 262144 + 0xF0) = some ⟨v / 262144, 3, low, high⟩ ∧
      low ≤ v / 4096 % 64 + 0x80 ∧ v / 4096 % 64 + 0x80 ≤ high := by
  have htable := Lead.of?_eq_four (n := v / 262144 + 0xF0) (by omega) (by omega)
  rw [Nat.add_sub_cancel] at htable
  refine ⟨_, _, htable, ?_, ?_⟩ <;> (split <;> omega)

end Lead

/-! ## 2. The bytes that follow -/

/-- A byte within its bounds adds its six bits. -/
theorem Lead.go_cons (more value : Nat) {low high x : Nat} (hx : x < 64) (hlow : low ≤ x + 0x80)
    (hhigh : x + 0x80 ≤ high) (bytes : List UInt8) :
    Lead.follow.go (more + 1) low high value (UInt8.ofNat (x + 0x80) :: bytes) =
      Lead.follow.go more 0x80 0xBF (value * 64 + x) bytes := by
  have hbyte : (UInt8.ofNat (x + 0x80)).toNat = x + 0x80 :=
    UInt8.toNat_ofNat_of_lt' (by omega : x + 0x80 < 0x100)
  rw [Lead.follow.go, hbyte, if_pos ⟨hlow, hhigh⟩, Nat.add_sub_cancel]

/-- A byte that only continues a character is within the widest bounds. -/
theorem Lead.go_cons_mod (more value v : Nat) (bytes : List UInt8) :
    Lead.follow.go (more + 1) 0x80 0xBF value (UInt8.ofNat (v % 64 + 0x80) :: bytes) =
      Lead.follow.go more 0x80 0xBF (value * 64 + v % 64) bytes :=
  Lead.go_cons more value (Nat.mod_lt _ (by decide)) (by omega) (by omega) bytes

/-- What is read where a longer character begins. -/
theorem first_of_lead {n value : Nat} {lead : Lead} {bytes rest : List UInt8} (hn : n < 0x100)
    (hlead : Lead.of? n = some lead) (hfollow : lead.follow bytes = (some value, rest)) :
    first (UInt8.ofNat n) bytes = (Char.ofNat value, rest) := by
  have hbyte : (UInt8.ofNat n).toNat = n := UInt8.toNat_ofNat_of_lt' hn
  have hlong : ¬ n < 0x80 := by
    intro h
    rw [Lead.of?, if_pos (by omega)] at hlead
    exact absurd hlead (by simp)
  simp only [first, hbyte, if_neg hlong, hlead, hfollow, Option.map_some, Option.getD_some]

/-! ## 3. Reading back -/

/-- **A character is read back**, whatever follows it. -/
theorem first_encode (c : Char) (rest : List UInt8) :
    ∃ b bytes, String.utf8EncodeChar c ++ rest = b :: bytes ∧ first b bytes = (c, rest) := by
  have hc : c.toNat < 0xD800 ∨ 0xDFFF < c.toNat ∧ c.toNat < 0x110000 := c.valid
  have hback : Char.ofNat c.toNat = c := Char.ofNat_toNat c
  have hval : c.val.toNat = c.toNat := rfl
  rw [String.utf8EncodeChar, hval]
  generalize c.toNat = v at hc hback
  split
  · have hbyte : (UInt8.ofNat v).toNat = v :=
      UInt8.toNat_ofNat_of_lt' (by omega : v < 0x100)
    refine ⟨_, _, rfl, ?_⟩
    rw [first, hbyte, if_pos (by omega), hback]
    rfl
  -- the three longer forms differ in the number of bytes that are followed
  split
  · have hlead := Lead.of?_two (v := v) (by omega) (by omega)
    have hfollow := Lead.go_cons_mod 0 (v / 64) v rest
    rw [show v / 64 * 64 + v % 64 = v by omega] at hfollow
    rw [Nat.mod_eq_of_lt (by omega : v / 64 < 0x20), ← hback]
    exact ⟨_, _, rfl, first_of_lead (by omega) hlead hfollow⟩
  split
  · obtain ⟨low, high, hlead, hlow, hhigh⟩ :=
      Lead.of?_three (v := v) (by omega) (by omega) (by omega)
    have hfollow := (Lead.go_cons 1 (v / 4096) (Nat.mod_lt _ (by decide)) hlow hhigh _).trans
      (Lead.go_cons_mod 0 _ v rest)
    rw [show (v / 4096 * 64 + v / 64 % 64) * 64 + v % 64 = v by omega] at hfollow
    rw [Nat.mod_eq_of_lt (by omega : v / 4096 < 0x10), ← hback]
    exact ⟨_, _, rfl, first_of_lead (by omega) hlead hfollow⟩
  · obtain ⟨low, high, hlead, hlow, hhigh⟩ := Lead.of?_four (v := v) (by omega) (by omega)
    have hfollow := (Lead.go_cons 2 (v / 262144) (Nat.mod_lt _ (by decide)) hlow hhigh _).trans
      ((Lead.go_cons_mod 1 _ (v / 64) _).trans (Lead.go_cons_mod 0 _ v rest))
    rw [show ((v / 262144 * 64 + v / 4096 % 64) * 64 + v / 64 % 64) * 64 + v % 64 = v by omega]
      at hfollow
    rw [Nat.mod_eq_of_lt (by omega : v / 262144 < 8), ← hback]
    exact ⟨_, _, rfl, first_of_lead (by omega) hlead hfollow⟩

theorem decode_encode_append (t : Text) (bytes : List UInt8) :
    decode (encode t ++ bytes) = t ++ decode bytes := by
  induction t with
  | nil => rfl
  | cons c t ih =>
    obtain ⟨b, bs, hbytes, hfirst⟩ := first_encode c (encode t ++ bytes)
    rw [encode_cons, List.append_assoc, hbytes, decode, hfirst, ih]
    rfl

/-- **Decoding undoes encoding.** -/
theorem decode_encode (t : Text) : decode (encode t) = t := by
  have h := decode_encode_append t []
  rwa [List.append_nil, decode, List.append_nil] at h

end Loxeme.Utf8
