/-
# Malformed input

What decoding makes of bytes that are no text.  Any bytes at all are cut from left to right into
well-formed sequences and, where none starts, into pieces that are as long as they can still
become one; each of the former is its character, and each of the latter is replaced once.

* `WellFormed` says by the bits which sequences belong to a character, and `wellFormed_iff` that
  there is one for each character.
* `opens_cons_iff`: what may follow a first byte is what the table of lead bytes allows.
* `first_cases`: what is read at one place, and `decode_eq_of_cut` that nothing else could be.
* `decode_local` puts these together: decoding is the one cut, damage stays where it is, and only
  text survives the way back.
-/
import Loxeme.Proofs.Encoding
import Mathlib.Data.List.Basic

namespace Loxeme.Utf8

/-! ## 1. Well-formed sequences -/

/-- A byte that can only continue a sequence. -/
def IsContinuation (b : UInt8) : Prop := 0x80 ≤ b.toNat ∧ b.toNat ≤ 0xBF

/-- `Packed least s v`: the bits of the bytes `s` hold the value `v`, in a form that is meant for
values from `least` on, since a shorter form holds those below. -/
inductive Packed : Nat → List UInt8 → Nat → Prop
  | one {a : UInt8} (ha : a.toNat < 0x80) : Packed 0 [a] a.toNat
  | two {a b : UInt8} (ha : 0xC0 ≤ a.toNat ∧ a.toNat < 0xE0) (hb : IsContinuation b) :
      Packed 0x80 [a, b] ((a.toNat - 0xC0) * 64 + (b.toNat - 0x80))
  | three {a b c : UInt8} (ha : 0xE0 ≤ a.toNat ∧ a.toNat < 0xF0) (hb : IsContinuation b)
      (hc : IsContinuation c) :
      Packed 0x800 [a, b, c]
        (((a.toNat - 0xE0) * 64 + (b.toNat - 0x80)) * 64 + (c.toNat - 0x80))
  | four {a b c d : UInt8} (ha : 0xF0 ≤ a.toNat ∧ a.toNat < 0xF8) (hb : IsContinuation b)
      (hc : IsContinuation c) (hd : IsContinuation d) :
      Packed 0x10000 [a, b, c, d]
        ((((a.toNat - 0xF0) * 64 + (b.toNat - 0x80)) * 64 + (c.toNat - 0x80)) * 64 +
          (d.toNat - 0x80))

/-- A code point that is kept for pairs of units and is no character. -/
def IsSurrogate (v : Nat) : Prop := 0xD800 ≤ v ∧ v ≤ 0xDFFF

/-- The well-formed sequence of a character: its code point, packed in the shortest form.  No
character is a surrogate or above U+10FFFF, so no well-formed sequence holds these. -/
def WellFormed (s : List UInt8) (c : Char) : Prop := ∃ least, Packed least s c.toNat ∧ least ≤ c.toNat

/-- The bytes are a text: well-formed sequences, one after the other. -/
def Valid (bytes : List UInt8) : Prop :=
  ∃ ss : List (List UInt8), (∀ s ∈ ss, ∃ c, WellFormed s c) ∧ bytes = ss.flatten

theorem toNat_byte {n : Nat} (h : n < 0x100) : (UInt8.ofNat n).toNat = n :=
  UInt8.toNat_ofNat_of_lt' h

theorem isContinuation_mod (v : Nat) :
    IsContinuation (UInt8.ofNat (v % 64 + 0x80)) ∧
      (UInt8.ofNat (v % 64 + 0x80)).toNat - 0x80 = v % 64 := by
  rw [IsContinuation, toNat_byte (by omega)]
  omega

theorem toNat_lt (c : Char) : c.toNat < 0xD800 ∨ 0xDFFF < c.toNat ∧ c.toNat < 0x110000 := c.valid

theorem toNat_char {v : Nat} (hs : ¬ IsSurrogate v) (hmax : v ≤ 0x10FFFF) :
    (Char.ofNat v).toNat = v := by
  have hvalid : v.isValidChar := by
    rw [IsSurrogate] at hs
    rw [Nat.isValidChar]
    omega
  rw [Char.ofNat, dif_pos hvalid]
  rfl

/-- A byte is determined by its number. -/
theorem eq_byte {a : UInt8} {n : Nat} (h : a.toNat = n) : a = UInt8.ofNat n := by
  rw [← h, UInt8.ofNat_toNat]

/-- What an encoded character is made of. -/
theorem wellFormed_encode (c : Char) : WellFormed (String.utf8EncodeChar c) c := by
  have hc := toNat_lt c
  have hval : c.val.toNat = c.toNat := rfl
  rw [WellFormed, String.utf8EncodeChar, hval]
  generalize c.toNat = v at hc
  obtain ⟨hlast, hlast'⟩ := isContinuation_mod v
  obtain ⟨hthird, hthird'⟩ := isContinuation_mod (v / 64)
  obtain ⟨hsecond, hsecond'⟩ := isContinuation_mod (v / 4096)
  split
  · have hbyte : (UInt8.ofNat v).toNat = v := toNat_byte (by omega)
    have hpacked := Packed.one (a := UInt8.ofNat v) (by omega)
    rw [hbyte] at hpacked
    exact ⟨_, hpacked, by omega⟩
  split
  · have hbyte : (UInt8.ofNat (v / 64 % 32 + 192)).toNat = v / 64 + 0xC0 := by
      rw [toNat_byte (by omega)]
      omega
    have hpacked := Packed.two (a := UInt8.ofNat (v / 64 % 32 + 192)) (by omega) hlast
    rw [hbyte, hlast', show (v / 64 + 0xC0 - 0xC0) * 64 + v % 64 = v by omega] at hpacked
    exact ⟨_, hpacked, by omega⟩
  split
  · have hbyte : (UInt8.ofNat (v / 4096 % 16 + 224)).toNat = v / 4096 + 0xE0 := by
      rw [toNat_byte (by omega)]
      omega
    have hpacked := Packed.three (a := UInt8.ofNat (v / 4096 % 16 + 224)) (by omega) hthird hlast
    rw [hbyte, hthird', hlast',
      show ((v / 4096 + 0xE0 - 0xE0) * 64 + v / 64 % 64) * 64 + v % 64 = v by omega] at hpacked
    exact ⟨_, hpacked, by omega⟩
  · have hbyte : (UInt8.ofNat (v / 262144 % 8 + 240)).toNat = v / 262144 + 0xF0 := by
      rw [toNat_byte (by omega)]
      omega
    have hpacked :=
      Packed.four (a := UInt8.ofNat (v / 262144 % 8 + 240)) (by omega) hsecond hthird hlast
    rw [hbyte, hsecond', hthird', hlast',
      show (((v / 262144 + 0xF0 - 0xF0) * 64 + v / 4096 % 64) * 64 + v / 64 % 64) * 64 + v % 64 = v
        by omega] at hpacked
    exact ⟨_, hpacked, by omega⟩

theorem encode_of_wellFormed {s : List UInt8} {c : Char} (h : WellFormed s c) :
    s = String.utf8EncodeChar c := by
  obtain ⟨least, hpacked, hleast⟩ := h
  have hc := toNat_lt c
  have hval : c.val.toNat = c.toNat := rfl
  rw [String.utf8EncodeChar, hval]
  generalize c.toNat = v at hpacked hleast hc
  cases hpacked with
  | @one a ha =>
    rw [if_pos (by omega), UInt8.ofNat_toNat]
  | @two a b ha hb =>
    rw [IsContinuation] at hb
    rw [if_neg (by omega), if_pos (by omega)]
    simp only [List.cons.injEq, and_true]
    exact ⟨eq_byte (by omega), eq_byte (by omega)⟩
  | @three a b d ha hb hd =>
    rw [IsContinuation] at hb hd
    rw [if_neg (by omega), if_neg (by omega), if_pos (by omega)]
    simp only [List.cons.injEq, and_true]
    exact ⟨eq_byte (by omega), eq_byte (by omega), eq_byte (by omega)⟩
  | @four a b d e ha hb hd he =>
    rw [IsContinuation] at hb hd he
    rw [if_neg (by omega), if_neg (by omega), if_neg (by omega)]
    simp only [List.cons.injEq, and_true]
    exact ⟨eq_byte (by omega), eq_byte (by omega), eq_byte (by omega), eq_byte (by omega)⟩

/-- **Every character has one well-formed sequence**, the one that it is encoded as. -/
theorem wellFormed_iff {s : List UInt8} {c : Char} : WellFormed s c ↔ s = String.utf8EncodeChar c := by
  constructor
  · exact encode_of_wellFormed
  · rintro rfl
    exact wellFormed_encode c

theorem Packed.unique {least least' v v' : Nat} {s : List UInt8} (h : Packed least s v)
    (h' : Packed least' s v') : least = least' ∧ v = v' := by
  cases h <;> cases h' <;> exact ⟨rfl, rfl⟩

/-- **What is not well-formed**: overlong forms, surrogates and values above U+10FFFF. -/
theorem exists_wellFormed_iff {least v : Nat} {s : List UInt8} (h : Packed least s v) :
    (∃ c, WellFormed s c) ↔ least ≤ v ∧ ¬ IsSurrogate v ∧ v ≤ 0x10FFFF := by
  constructor
  · rintro ⟨c, least', hpacked, hleast⟩
    obtain ⟨rfl, rfl⟩ := h.unique hpacked
    have hc := toNat_lt c
    rw [IsSurrogate]
    omega
  · rintro ⟨hleast, hs, hmax⟩
    have hv := toNat_char hs hmax
    exact ⟨Char.ofNat v, least, by rw [hv]; exact h, by rw [hv]; exact hleast⟩

/-! ## 2. What may follow a first byte -/

/-- At most so many bytes, the first of them within bounds and each other one a byte that
continues. -/
def Allowed : Nat → Nat → Nat → List UInt8 → Prop
  | _, _, _, [] => True
  | 0, _, _, _ :: _ => False
  | more + 1, low, high, b :: bs => (low ≤ b.toNat ∧ b.toNat ≤ high) ∧ Allowed more 0x80 0xBF bs

/-- The bytes may follow a lead. -/
def Lead.Allows (lead : Lead) (s : List UInt8) : Prop := Allowed lead.more lead.low lead.high s

/-- The value that bytes make of the value before them: each adds its six bits. -/
def shifted (value : Nat) (s : List UInt8) : Nat :=
  s.foldl (fun v b => v * 64 + (b.toNat - 0x80)) value

theorem shifted_cons (value : Nat) (b : UInt8) (s : List UInt8) :
    shifted value (b :: s) = shifted (value * 64 + (b.toNat - 0x80)) s := by
  rw [shifted, shifted, List.foldl_cons]

section Table

variable {n : Nat}

theorem Lead.of?_eq_none (h : n < 0xC2 ∨ 0xF4 < n) : Lead.of? n = none := by
  unfold Lead.of?
  repeat' split
  all_goals first | rfl | omega

/-- What the bounds of the second byte keep out, beyond what any byte that continues is. -/
theorem within_iff {k l low high x : Nat} (hlow : 0x80 ≤ low) (hhigh : high ≤ 0xBF) :
    (if n = k then low else 0x80) ≤ x ∧ x ≤ (if n = l then high else 0xBF) ↔
      (0x80 ≤ x ∧ x ≤ 0xBF) ∧ (n = k → low ≤ x) ∧ (n = l → x ≤ high) := by
  split <;> split <;> omega

/-- The leads, by their numbers of bytes. -/
theorem Lead.of?_cases {lead : Lead} (h : Lead.of? n = some lead) :
    (0xC2 ≤ n ∧ n < 0xE0) ∨ (0xE0 ≤ n ∧ n < 0xF0) ∨ (0xF0 ≤ n ∧ n ≤ 0xF4) := by
  by_cases hn : n < 0xC2 ∨ 0xF4 < n
  · rw [Lead.of?_eq_none hn] at h
    exact absurd h (by simp)
  · omega

end Table

section Follow

variable {b : UInt8} {s t : List UInt8} {lead : Lead} {v : Nat}

/-- A packed character begins with an ASCII byte, or with a lead and what it allows. -/
theorem lead_of_packed {least : Nat} (h : Packed least (b :: s) v) (hleast : least ≤ v)
    (hs : ¬ IsSurrogate v) (hmax : v ≤ 0x10FFFF) :
    (b.toNat < 0x80 ∧ s = [] ∧ v = b.toNat) ∨
      ∃ lead, Lead.of? b.toNat = some lead ∧ lead.Allows s ∧ s.length = lead.more ∧
        v = shifted lead.payload s := by
  rw [IsSurrogate] at hs
  cases h with
  | one ha => exact Or.inl ⟨ha, rfl, rfl⟩
  | @two _ x ha hx =>
    rw [IsContinuation] at hx
    exact Or.inr ⟨_, Lead.of?_eq_two (by omega) ha.2, ⟨hx, trivial⟩, rfl, rfl⟩
  | @three _ x y ha hx hy =>
    refine Or.inr ⟨_, Lead.of?_eq_three ha.1 ha.2, ⟨?_, hy, trivial⟩, rfl, rfl⟩
    rw [IsContinuation] at hx hy
    exact (within_iff (by decide) (by decide)).mpr (by omega)
  | @four _ x y z ha hx hy hz =>
    refine Or.inr ⟨_, Lead.of?_eq_four ha.1 (by omega), ⟨?_, hy, hz, trivial⟩, rfl, rfl⟩
    rw [IsContinuation] at hx hy hz
    exact (within_iff (by decide) (by decide)).mpr (by omega)

/-- A lead and all that it asks for are a packed character. -/
theorem packed_of_lead (hlead : Lead.of? b.toNat = some lead) (hs : lead.Allows s)
    (hlen : s.length = lead.more) :
    ∃ least, Packed least (b :: s) (shifted lead.payload s) ∧ least ≤ shifted lead.payload s ∧
      ¬ IsSurrogate (shifted lead.payload s) ∧ shifted lead.payload s ≤ 0x10FFFF := by
  rcases Lead.of?_cases hlead with h | h | h
  · rw [Lead.of?_eq_two h.1 h.2] at hlead
    obtain rfl := Option.some.inj hlead
    obtain ⟨x, rfl⟩ := List.length_eq_one_iff.mp hlen
    have hx : IsContinuation x := hs.1
    refine ⟨_, .two ⟨by omega, h.2⟩ hx, ?_⟩
    rw [IsContinuation] at hx
    simp only [shifted, List.foldl_cons, List.foldl_nil, IsSurrogate]
    omega
  · rw [Lead.of?_eq_three h.1 h.2] at hlead
    obtain rfl := Option.some.inj hlead
    obtain ⟨x, y, rfl⟩ := List.length_eq_two.mp hlen
    obtain ⟨hwithin, hy, -⟩ := hs
    obtain ⟨hx, hfirst, hlast⟩ := (within_iff (by decide) (by decide)).mp hwithin
    refine ⟨_, .three h hx hy, ?_⟩
    obtain ⟨hy, hy'⟩ : 0x80 ≤ y.toNat ∧ y.toNat ≤ 0xBF := hy
    simp only [shifted, List.foldl_cons, List.foldl_nil, IsSurrogate]
    omega
  · rw [Lead.of?_eq_four h.1 h.2] at hlead
    obtain rfl := Option.some.inj hlead
    obtain ⟨x, y, z, rfl⟩ := List.length_eq_three.mp hlen
    obtain ⟨hwithin, hy, hz, -⟩ := hs
    obtain ⟨hx, hfirst, hlast⟩ := (within_iff (by decide) (by decide)).mp hwithin
    refine ⟨_, .four ⟨h.1, by omega⟩ hx hy hz, ?_⟩
    obtain ⟨hy, hy'⟩ : 0x80 ≤ y.toNat ∧ y.toNat ≤ 0xBF := hy
    obtain ⟨hz, hz'⟩ : 0x80 ≤ z.toNat ∧ z.toNat ≤ 0xBF := hz
    simp only [shifted, List.foldl_cons, List.foldl_nil, IsSurrogate]
    omega

/-- **Which bytes are a well-formed sequence**: an ASCII byte, or a lead and all it asks for. -/
theorem wellFormed_cons_iff {c : Char} :
    WellFormed (b :: s) c ↔ (b.toNat < 0x80 ∧ s = [] ∧ c.toNat = b.toNat) ∨
      ∃ lead, Lead.of? b.toNat = some lead ∧ lead.Allows s ∧ s.length = lead.more ∧
        c.toNat = shifted lead.payload s := by
  constructor
  · rintro ⟨least, hpacked, hleast⟩
    have hc := toNat_lt c
    exact lead_of_packed hpacked hleast (by rw [IsSurrogate]; omega) (by omega)
  · rintro (⟨hb, rfl, hc⟩ | ⟨lead, hlead, hs, hlen, hc⟩)
    · exact ⟨0, hc ▸ .one hb, Nat.zero_le _⟩
    · obtain ⟨least, hpacked, hleast, -⟩ := packed_of_lead hlead hs hlen
      exact ⟨least, hc ▸ hpacked, hc ▸ hleast⟩

end Follow

/-! ## 3. What can still become a sequence -/

/-- The bytes begin a well-formed sequence and are not all of it. -/
def Opens (s : List UInt8) : Prop := s ≠ [] ∧ ∃ t c, t ≠ [] ∧ WellFormed (s ++ t) c

section Allowed

variable {more low high : Nat} {s t : List UInt8}

theorem Allowed.of_append (h : Allowed more low high (s ++ t)) : Allowed more low high s := by
  induction s generalizing more low high with
  | nil => cases more <;> trivial
  | cons b s ih =>
    cases more with
    | zero => exact h.elim
    | succ more => exact ⟨h.1, ih h.2⟩

theorem Allowed.length_le (h : Allowed more low high s) : s.length ≤ more := by
  induction s generalizing more low high with
  | nil => exact Nat.zero_le _
  | cons b s ih =>
    cases more with
    | zero => exact h.elim
    | succ more => exact Nat.succ_le_succ (ih h.2)

/-- Bytes that are allowed can be completed. -/
theorem Allowed.exists_completion (h : Allowed more low high s) (hlow : low ≤ high)
    (hhigh : high ≤ 0xBF) : ∃ t, Allowed more low high (s ++ t) ∧ (s ++ t).length = more := by
  induction more generalizing low high s with
  | zero =>
    obtain rfl : s = [] := List.length_eq_zero_iff.mp (Nat.le_zero.mp h.length_le)
    exact ⟨[], h, rfl⟩
  | succ more ih =>
    cases s with
    | cons b s =>
      obtain ⟨t, ht, hlen⟩ := ih h.2 (by decide) (Nat.le_refl _)
      exact ⟨t, ⟨h.1, ht⟩, congrArg (· + 1) hlen⟩
    | nil =>
      -- the least byte will do, and then any
      have hnil : Allowed more 0x80 0xBF [] := by cases more <;> trivial
      obtain ⟨t, ht, hlen⟩ := ih hnil (by decide) (Nat.le_refl _)
      have hbyte : (UInt8.ofNat low).toNat = low := toNat_byte (by omega)
      exact ⟨UInt8.ofNat low :: t, ⟨by rw [hbyte]; exact ⟨Nat.le_refl _, hlow⟩, ht⟩,
        congrArg (· + 1) hlen⟩

end Allowed

/-- The bounds of a lead are those of a byte that continues, or narrower. -/
theorem Lead.bounds {n : Nat} {lead : Lead} (h : Lead.of? n = some lead) :
    0x80 ≤ lead.low ∧ lead.low ≤ lead.high ∧ lead.high ≤ 0xBF ∧ 0 < lead.more := by
  rcases Lead.of?_cases h with hn | hn | hn
  · rw [Lead.of?_eq_two hn.1 hn.2] at h
    obtain rfl := Option.some.inj h
    simp
  · rw [Lead.of?_eq_three hn.1 hn.2] at h
    obtain rfl := Option.some.inj h
    dsimp only
    split <;> split <;> omega
  · rw [Lead.of?_eq_four hn.1 hn.2] at h
    obtain rfl := Option.some.inj h
    dsimp only
    split <;> split <;> omega

/-- **What can still become a sequence**: a lead, and less than it asks for. -/
theorem opens_cons_iff {b : UInt8} {s : List UInt8} :
    Opens (b :: s) ↔
      ∃ lead, Lead.of? b.toNat = some lead ∧ lead.Allows s ∧ s.length < lead.more := by
  constructor
  · rintro ⟨-, t, c, ht, hwf⟩
    rw [List.cons_append] at hwf
    rcases wellFormed_cons_iff.mp hwf with ⟨-, hnil, -⟩ | ⟨lead, hlead, hallows, hlen, -⟩
    · exact absurd (List.append_eq_nil_iff.mp hnil).2 ht
    · have hpos := List.length_pos_iff.mpr ht
      rw [List.length_append] at hlen
      exact ⟨lead, hlead, hallows.of_append, by omega⟩
  · rintro ⟨lead, hlead, hallows, hlt⟩
    obtain ⟨-, hlow, hhigh, -⟩ := Lead.bounds hlead
    obtain ⟨t, ht, hlen⟩ := hallows.exists_completion hlow hhigh
    obtain ⟨least, hpacked, hok⟩ := packed_of_lead hlead ht hlen
    obtain ⟨c, hwf⟩ := (exists_wellFormed_iff hpacked).mpr hok
    refine ⟨List.cons_ne_nil _ _, t, c, ?_, hwf⟩
    rintro rfl
    rw [List.append_nil] at hlen
    omega

/-! ## 4. Cuts -/

/-- No well-formed sequence stands at the front. -/
def NoneStarts (bytes : List UInt8) : Prop := ∀ s c, s <+: bytes → ¬ WellFormed s c

/-- The bytes in front of others are a maximal subpart: as many as can still become a sequence,
or one byte that no sequence begins with. -/
def MaximalSubpart (s rest : List UInt8) : Prop :=
  (Opens s ∧ ∀ t, t ≠ [] → t <+: rest → ¬ Opens (s ++ t)) ∨
    ∃ b, s = [b] ∧ ∀ t c, ¬ WellFormed (b :: t) c

/-- `Cut bytes t`: cutting the bytes from left to right gives the text, a character for every
well-formed sequence and a replacement for every maximal subpart where none starts. -/
inductive Cut : List UInt8 → Text → Prop
  | nil : Cut [] []
  | sequence {s rest : List UInt8} {c : Char} {t : Text} (hs : WellFormed s c) (h : Cut rest t) :
      Cut (s ++ rest) (c :: t)
  | subpart {s rest : List UInt8} {t : Text} (hnone : NoneStarts (s ++ rest))
      (hs : MaximalSubpart s rest) (h : Cut rest t) : Cut (s ++ rest) (replacement :: t)

theorem WellFormed.ne_nil {s : List UInt8} {c : Char} (h : WellFormed s c) : s ≠ [] := by
  rintro rfl
  obtain ⟨least, hpacked, -⟩ := h
  exact absurd hpacked (by rintro ⟨⟩)

theorem noneStarts_cons {b : UInt8} {bytes : List UInt8}
    (h : ∀ p c, p <+: bytes → ¬ WellFormed (b :: p) c) : NoneStarts (b :: bytes) := by
  rintro (_ | ⟨x, p⟩) c hprefix hwf
  · exact hwf.ne_nil rfl
  · obtain ⟨rfl, hp⟩ := List.cons_prefix_cons.mp hprefix
    exact h p c hp hwf

/-- Reading on behind a lead goes through what is allowed there: all that is asked for, or as
much as there is. -/
theorem Lead.go_cases (more low high value : Nat) (bytes : List UInt8) :
    ∃ s rest, bytes = s ++ rest ∧ Allowed more low high s ∧
      ((s.length = more ∧
          follow.go more low high value bytes = (some (shifted value s), rest)) ∨
        (s.length < more ∧ follow.go more low high value bytes = (none, rest) ∧
          ∀ t, t ≠ [] → t <+: rest → ¬ Allowed more low high (s ++ t))) := by
  fun_induction follow.go more low high value bytes with
  | case1 low high value bytes => exact ⟨[], bytes, rfl, trivial, Or.inl ⟨rfl, rfl⟩⟩
  | case2 =>
    refine ⟨[], [], rfl, trivial, Or.inr ⟨Nat.succ_pos _, rfl, ?_⟩⟩
    intro t ht hprefix
    exact absurd (List.prefix_nil.mp hprefix) ht
  | case3 low high value more b bytes hb ih =>
    obtain ⟨s, rest, rfl, hs, h⟩ := ih
    refine ⟨b :: s, rest, rfl, ⟨hb, hs⟩, ?_⟩
    rcases h with ⟨hlen, hgo⟩ | ⟨hlen, hgo, hmax⟩
    · rw [shifted_cons]
      exact Or.inl ⟨congrArg (· + 1) hlen, hgo⟩
    · exact Or.inr ⟨Nat.succ_lt_succ hlen, hgo, fun t ht hprefix h => hmax t ht hprefix h.2⟩
  | case4 low high value more b bytes hb =>
    refine ⟨[], b :: bytes, rfl, trivial, Or.inr ⟨Nat.succ_pos _, rfl, ?_⟩⟩
    rintro (_ | ⟨x, t⟩) ht hprefix h
    · exact absurd rfl ht
    · obtain ⟨rfl, -⟩ := List.cons_prefix_cons.mp hprefix
      exact hb h.1

/-- A byte that no lead is begins no sequence. -/
theorem not_wellFormed_of_none {b : UInt8} (hb : ¬ b.toNat < 0x80)
    (hlead : Lead.of? b.toNat = none) (t : List UInt8) (c : Char) : ¬ WellFormed (b :: t) c := by
  intro hwf
  rcases wellFormed_cons_iff.mp hwf with ⟨hb', -⟩ | ⟨lead, hlead', -⟩
  · exact hb hb'
  · rw [hlead] at hlead'
    exact absurd hlead' (by simp)

/-- Such a byte is a maximal subpart by itself. -/
theorem maximalSubpart_of_none {b : UInt8} (hb : ¬ b.toNat < 0x80)
    (hlead : Lead.of? b.toNat = none) (rest : List UInt8) :
    NoneStarts ([b] ++ rest) ∧ MaximalSubpart [b] rest :=
  ⟨noneStarts_cons fun p c _ => not_wellFormed_of_none hb hlead p c,
    Or.inr ⟨b, rfl, not_wellFormed_of_none hb hlead⟩⟩

/-- What is read behind a lead. -/
theorem first_cases_of_lead {b : UInt8} {lead : Lead} (hb : ¬ b.toNat < 0x80)
    (hlead : Lead.of? b.toNat = some lead) (bytes : List UInt8) :
    ∃ s rest, bytes = s ++ rest ∧
      ((∃ c, WellFormed (b :: s) c ∧ first b bytes = (c, rest)) ∨
        (first b bytes = (replacement, rest) ∧ NoneStarts (b :: bytes) ∧
          MaximalSubpart (b :: s) rest)) := by
  obtain ⟨s, rest, rfl, hallows, h⟩ :=
    Lead.go_cases lead.more lead.low lead.high lead.payload bytes
  refine ⟨s, rest, rfl, ?_⟩
  have hfirst : ∀ value : Option Nat, lead.follow (s ++ rest) = (value, rest) →
      first b (s ++ rest) = ((value.map Char.ofNat).getD replacement, rest) := by
    intro value hfollow
    simp only [first, if_neg hb, hlead, hfollow]
  rcases h with ⟨hlen, hgo⟩ | ⟨hlen, hgo, hmax⟩
  · refine Or.inl ⟨_, ?_, hfirst _ hgo⟩
    obtain ⟨least, -, -, hs, hv⟩ := packed_of_lead hlead hallows hlen
    exact wellFormed_cons_iff.mpr (Or.inr ⟨lead, hlead, hallows, hlen, toNat_char hs hv⟩)
  · refine Or.inr ⟨hfirst _ hgo, ?_, Or.inl ⟨opens_cons_iff.mpr ⟨lead, hlead, hallows, hlen⟩, ?_⟩⟩
    · refine noneStarts_cons ?_
      intro p c hp hwf
      rcases wellFormed_cons_iff.mp hwf with ⟨hx, -⟩ | ⟨lead', hlead', hallows', hlen', -⟩
      · exact hb hx
      · rw [hlead] at hlead'
        obtain rfl := Option.some.inj hlead'
        -- the sequence would go on behind all that is allowed there
        obtain ⟨t, rfl⟩ := List.prefix_of_prefix_length_le (List.prefix_append s rest) hp (by omega)
        refine hmax t ?_ ((List.prefix_append_right_inj s).mp hp) hallows'
        rintro rfl
        rw [List.append_nil] at hlen'
        omega
    · intro t ht hprefix hopens
      obtain ⟨lead', hlead', hallows', -⟩ := opens_cons_iff.mp hopens
      rw [hlead] at hlead'
      obtain rfl := Option.some.inj hlead'
      exact hmax t ht hprefix hallows'

/-- **What is read at one place** is a well-formed sequence, or a maximal subpart where none
starts. -/
theorem first_cases (b : UInt8) (bytes : List UInt8) :
    ∃ s rest, b :: bytes = s ++ rest ∧
      ((∃ c, WellFormed s c ∧ first b bytes = (c, rest)) ∨
        (first b bytes = (replacement, rest) ∧ NoneStarts (b :: bytes) ∧
          MaximalSubpart s rest)) := by
  by_cases hb : b.toNat < 0x80
  · refine ⟨[b], bytes, rfl, Or.inl ⟨Char.ofNat b.toNat, ?_, by rw [first, if_pos hb]⟩⟩
    refine wellFormed_cons_iff.mpr (Or.inl ⟨hb, rfl, ?_⟩)
    exact toNat_char (by rw [IsSurrogate]; omega) (by omega)
  cases hlead : Lead.of? b.toNat with
  | none =>
    have hfirst : first b bytes = (replacement, bytes) := by
      simp only [first, if_neg hb, hlead]
    exact ⟨[b], bytes, rfl, Or.inr ⟨hfirst, maximalSubpart_of_none hb hlead bytes⟩⟩
  | some lead =>
    obtain ⟨s, rest, rfl, h⟩ := first_cases_of_lead hb hlead bytes
    exact ⟨b :: s, rest, rfl, h⟩

/-! ## 5. Decoding is the one cut -/

theorem cut_decode (bytes : List UInt8) : Cut bytes (decode bytes) := by
  fun_induction decode bytes with
  | case1 => exact .nil
  | case2 b bytes ih =>
    obtain ⟨s, rest, hsplit, ⟨c, hwf, hfirst⟩ | ⟨hfirst, hnone, hmax⟩⟩ := first_cases b bytes
    · rw [hfirst] at ih ⊢
      rw [hsplit]
      exact .sequence hwf ih
    · rw [hfirst] at ih ⊢
      rw [hsplit] at hnone ⊢
      exact .subpart hnone hmax ih

section Unique

variable {s s' t rest rest' bytes : List UInt8}

theorem MaximalSubpart.ne_nil (h : MaximalSubpart s rest) : s ≠ [] := by
  rcases h with ⟨hopens, -⟩ | ⟨b, rfl, -⟩
  · exact hopens.1
  · exact List.cons_ne_nil _ _

/-- No maximal subpart is longer than another at the same place. -/
theorem MaximalSubpart.eq_nil_of_append (h : MaximalSubpart s rest) (ht : t <+: rest)
    (h' : MaximalSubpart (s ++ t) rest') : t = [] := by
  by_cases hne : t = []
  · exact hne
  exfalso
  rcases h' with ⟨hopens, -⟩ | ⟨b, hb, -⟩
  · rcases h with ⟨-, hmax⟩ | ⟨b, rfl, hnone⟩
    · exact hmax t hne ht hopens
    · obtain ⟨-, u, c, -, hwf⟩ := hopens
      exact hnone (t ++ u) c hwf
  · have hlen := congrArg List.length hb
    have hs := List.length_pos_iff.mpr h.ne_nil
    have ht := List.length_pos_iff.mpr hne
    simp only [List.length_append, List.length_singleton] at hlen
    omega

theorem MaximalSubpart.unique (h : MaximalSubpart s rest) (h' : MaximalSubpart s' rest')
    (heq : s ++ rest = s' ++ rest') : s = s' ∧ rest = rest' := by
  rcases List.append_eq_append_iff.mp heq with ⟨t, rfl, hrest⟩ | ⟨t, rfl, hrest⟩
  · obtain rfl := h.eq_nil_of_append ⟨rest', hrest.symm⟩ h'
    exact ⟨(List.append_nil s).symm, hrest⟩
  · obtain rfl := h'.eq_nil_of_append ⟨rest, hrest.symm⟩ h
    exact ⟨List.append_nil s', hrest.symm⟩

/-- **Nothing else is a cut of the bytes.** -/
theorem decode_eq_of_cut {text : Text} (h : Cut bytes text) : decode bytes = text := by
  induction h with
  | nil => rw [decode]
  | @sequence s rest c text hs h ih =>
    obtain rfl := encode_of_wellFormed hs
    have hdecode := decode_encode_append [c] rest
    rwa [encode_cons, encode_nil, List.append_nil, ih] at hdecode
  | @subpart s rest text hnone hs h ih =>
    obtain ⟨b, bytes, hbytes⟩ := List.exists_cons_of_ne_nil
      (List.append_ne_nil_of_left_ne_nil hs.ne_nil rest)
    obtain ⟨s', rest', hsplit, ⟨c, hwf, -⟩ | ⟨hfirst, -, hmax⟩⟩ := first_cases b bytes
    · refine absurd hwf (hnone s' c ?_)
      rw [hbytes, hsplit]
      exact List.prefix_append s' rest'
    · obtain ⟨-, rfl⟩ := hs.unique hmax (hbytes.trans hsplit)
      rw [hbytes, decode, hfirst, ih]

end Unique

/-! ## 6. Laws -/

/-- **Only text survives the way back.** -/
theorem encode_decode_iff (bytes : List UInt8) : encode (decode bytes) = bytes ↔ Valid bytes := by
  constructor
  · intro h
    refine ⟨(decode bytes).map String.utf8EncodeChar, ?_, ?_⟩
    · intro s hs
      obtain ⟨c, -, rfl⟩ := List.mem_map.mp hs
      exact ⟨c, wellFormed_encode c⟩
    · rw [← List.flatMap_def]
      exact h.symm
  · rintro ⟨ss, hss, rfl⟩
    have htext : ∃ t, encode t = ss.flatten := by
      induction ss with
      | nil => exact ⟨[], rfl⟩
      | cons s ss ih =>
        obtain ⟨t, ht⟩ := ih fun x hx => hss x (List.mem_cons_of_mem _ hx)
        obtain ⟨c, hs⟩ := hss s List.mem_cons_self
        exact ⟨c :: t, by rw [encode_cons, ht, ← encode_of_wellFormed hs, List.flatten_cons]⟩
    obtain ⟨t, ht⟩ := htext
    rw [← ht, decode_encode]

section Append

variable {more : List UInt8}

/-- Bytes that begin with none that continues are not read along with what is before them. -/
theorem Lead.go_append (hmore : ∀ x ∈ more.head?, ¬ IsContinuation x) (n low high value : Nat)
    (hlow : 0x80 ≤ low) (hhigh : high ≤ 0xBF) (bytes : List UInt8) :
    follow.go n low high value (bytes ++ more) =
      ((follow.go n low high value bytes).1, (follow.go n low high value bytes).2 ++ more) := by
  fun_induction follow.go n low high value bytes with
  | case1 => rw [follow.go]
  | case2 n low high value =>
    cases more with
    | nil => rfl
    | cons x more =>
      have hx := hmore x rfl
      rw [IsContinuation] at hx
      rw [List.nil_append, follow.go, if_neg (by omega)]
  | case3 low high value n b bytes hb ih =>
    rw [List.cons_append, follow.go, if_pos hb]
    exact ih (by decide) (Nat.le_refl _)
  | case4 low high value n b bytes hb =>
    rw [List.cons_append, follow.go, if_neg hb]

theorem first_append (hmore : ∀ x ∈ more.head?, ¬ IsContinuation x) (b : UInt8)
    (bytes : List UInt8) :
    first b (bytes ++ more) = ((first b bytes).1, (first b bytes).2 ++ more) := by
  by_cases hb : b.toNat < 0x80
  · rw [first, first, if_pos hb, if_pos hb]
  cases hlead : Lead.of? b.toNat with
  | none => simp only [first, if_neg hb, hlead]
  | some lead =>
    obtain ⟨hlow, -, hhigh, -⟩ := Lead.bounds hlead
    have hfollow : lead.follow (bytes ++ more) =
        ((lead.follow bytes).1, (lead.follow bytes).2 ++ more) :=
      Lead.go_append hmore _ _ _ _ hlow hhigh bytes
    simp only [first, if_neg hb, hlead, hfollow]

/-- **Damage does not reach past a byte that begins something.** -/
theorem decode_append (hmore : ∀ x ∈ more.head?, ¬ IsContinuation x) (bytes : List UInt8) :
    decode (bytes ++ more) = decode bytes ++ decode more := by
  fun_induction decode bytes with
  | case1 => rfl
  | case2 b bytes ih =>
    rw [List.cons_append, decode, first_append hmore, ih]
    rfl

end Append

/-- **Malformed input stays local.**  The text of any bytes is the one that cutting them gives,
and overlong forms, surrogates and values above U+10FFFF are no sequences of that cut.  No
surrogate is in the text, the text is encoded as the same bytes exactly if these are valid, and
what follows is read by itself if it does not begin with a byte that continues. -/
theorem decode_local (bytes : List UInt8) :
    (∀ t, Cut bytes t ↔ t = decode bytes) ∧
      (∀ (least v : Nat) (s : List UInt8), Packed least s v →
        ((∃ c, WellFormed s c) ↔ least ≤ v ∧ ¬ IsSurrogate v ∧ v ≤ 0x10FFFF)) ∧
      (∀ c ∈ decode bytes, ¬ IsSurrogate c.toNat) ∧
      (encode (decode bytes) = bytes ↔ Valid bytes) ∧
      ∀ more : List UInt8, (∀ x ∈ more.head?, ¬ IsContinuation x) →
        decode (bytes ++ more) = decode bytes ++ decode more := by
  refine ⟨?_, ?_, ?_, encode_decode_iff bytes, ?_⟩
  · intro t
    constructor
    · intro h
      exact (decode_eq_of_cut h).symm
    · rintro rfl
      exact cut_decode bytes
  · intro least v s h
    exact exists_wellFormed_iff h
  · intro c _
    have hc := toNat_lt c
    rw [IsSurrogate]
    omega
  · intro more hmore
    exact decode_append hmore bytes

/-- A sequence of four bytes that lacks its last one, in front of a letter and of a surrogate
that was encoded: one replacement for what is left of the first, three for the surrogate. -/
theorem decode_local_truncated :
    (∀ x ∈ [0x61, 0xED, 0xA0, 0x80].head?, ¬ IsContinuation x) ∧
      decode ([0xF0, 0x9F, 0x98] ++ [0x61, 0xED, 0xA0, 0x80]) =
        [replacement] ++ ['a', replacement, replacement, replacement] := by
  have hmore : ∀ x ∈ [0x61, 0xED, 0xA0, 0x80].head?, ¬ IsContinuation x := by
    intro x hx
    obtain rfl := Option.some.inj hx
    rw [IsContinuation]
    decide
  refine ⟨hmore, ((decode_local [0xF0, 0x9F, 0x98]).2.2.2.2 _ hmore).trans ?_⟩
  decide +kernel

end Loxeme.Utf8
