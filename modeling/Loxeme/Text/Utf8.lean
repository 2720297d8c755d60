/-
# Texts as bytes

The UTF-8 form of a text, and the text of any bytes at all.

A well-formed sequence is its character.  Where none starts, the bytes that could still have
become one are replaced together by a single U+FFFD; a byte that can start nothing is
replaced alone.  What may follow a lead byte is narrower after E0, ED, F0 and F4, which
keeps out overlong forms, surrogates and code points above U+10FFFF.

* `Lead.of?` is the table of lead bytes, `Lead.follow` reads what belongs to one.
* `Utf8.decode` and `Utf8.encode` are the two directions.
-/
import Loxeme.Text.Basic

namespace Loxeme.Utf8

/-! ## 1. Lead bytes -/

/-- What the first byte of a longer sequence says: its share of the code point, how many
bytes must follow, and the bounds of the next one. -/
structure Lead where
  payload : Nat
  more : Nat
  low : Nat
  high : Nat
  deriving DecidableEq, Repr

/-- The lead bytes of sequences of two, three and four bytes. -/
def Lead.of? (b : Nat) : Option Lead :=
  if b < 0xC2 then none
  else if b < 0xE0 then some ⟨b - 0xC0, 1, 0x80, 0xBF⟩
  else if b = 0xE0 then some ⟨0, 2, 0xA0, 0xBF⟩
  else if b = 0xED then some ⟨0xD, 2, 0x80, 0x9F⟩
  else if b < 0xF0 then some ⟨b - 0xE0, 2, 0x80, 0xBF⟩
  else if b = 0xF0 then some ⟨0, 3, 0x90, 0xBF⟩
  else if b < 0xF4 then some ⟨b - 0xF0, 3, 0x80, 0xBF⟩
  else if b = 0xF4 then some ⟨4, 3, 0x80, 0x8F⟩
  else none

/-- Reads on through the bytes that belong to a lead.  The answer is the code point, if all
came, and the bytes that are left; a byte out of bounds is left too. -/
def Lead.follow (lead : Lead) : List UInt8 → Option Nat × List UInt8 :=
  go lead.more lead.low lead.high lead.payload
where
  go : Nat → Nat → Nat → Nat → List UInt8 → Option Nat × List UInt8
    | 0, _, _, value, bytes => (some value, bytes)
    | _ + 1, _, _, _, [] => (none, [])
    | more + 1, low, high, value, b :: bytes =>
      if low ≤ b.toNat ∧ b.toNat ≤ high then
        go more 0x80 0xBF (value * 64 + (b.toNat - 0x80)) bytes
      else (none, b :: bytes)

theorem Lead.length_go_le (more low high value : Nat) (bytes : List UInt8) :
    (Lead.follow.go more low high value bytes).2.length ≤ bytes.length := by
  fun_induction Lead.follow.go more low high value bytes with
  | case1 => simp
  | case2 => simp
  | case3 low high value more b bytes h ih => simp only [List.length_cons]; omega
  | case4 => simp

theorem Lead.length_follow_le (lead : Lead) (bytes : List UInt8) :
    (lead.follow bytes).2.length ≤ bytes.length :=
  Lead.length_go_le _ _ _ _ bytes

/-! ## 2. Decoding -/

/-- What stands for bytes that are no character. -/
def replacement : Char := '\uFFFD'

/-- The character that the bytes `b :: bytes` start with, and the bytes after it. -/
def first (b : UInt8) (bytes : List UInt8) : Char × List UInt8 :=
  if b.toNat < 0x80 then (Char.ofNat b.toNat, bytes)
  else
    match Lead.of? b.toNat with
    | none => (replacement, bytes)
    | some lead =>
      let (value, rest) := lead.follow bytes
      ((value.map Char.ofNat).getD replacement, rest)

theorem length_first_le (b : UInt8) (bytes : List UInt8) :
    (first b bytes).2.length ≤ bytes.length := by
  unfold first
  split
  · simp
  · split
    · simp
    · rename_i lead _; exact lead.length_follow_le bytes

/-- The text of a list of bytes. -/
def decode : List UInt8 → Text
  | [] => []
  | b :: bytes => (first b bytes).1 :: decode (first b bytes).2
termination_by bytes => bytes.length
decreasing_by
  have := length_first_le b bytes
  simp only [List.length_cons]; omega

/-! ## 3. Encoding -/

/-- The UTF-8 form of a text. -/
def encode (t : Text) : List UInt8 := t.flatMap String.utf8EncodeChar

@[simp] theorem encode_nil : encode [] = [] := rfl

@[simp] theorem encode_cons (c : Char) (t : Text) :
    encode (c :: t) = String.utf8EncodeChar c ++ encode t := rfl

@[simp] theorem encode_append (t u : Text) : encode (t ++ u) = encode t ++ encode u := by
  simp [encode]

end Loxeme.Utf8
