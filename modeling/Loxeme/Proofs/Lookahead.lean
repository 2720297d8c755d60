/-
# Two characters of lookahead

Whatever a scan reads, it never looks at more than the two characters behind it.  So a change
of the source leaves every step in place that ends two characters or more in front of it.

* `stops_of_take_two`: whether a piece stops is settled by the two characters that follow.
* `pieces_of_agree`: texts that agree far enough begin with the same piece.
* `settled_layOut`: so the pieces that end two characters before the texts differ are the same,
  and stand at the same offsets and on the same lines.
* `scan_lookahead` says so for the steps of two scans, their tokens and their diagnostics.
-/
import Loxeme.Proofs.Trace
import Mathlib.Data.List.Infix

namespace Loxeme

/-! ## 1. What decides where a piece stops -/

section Two

variable {after after' : Text}

theorem head?_of_take_two (h : after.take 2 = after'.take 2) : after.head? = after'.head? := by
  have hhead := congrArg List.head? h
  rwa [List.head?_take, List.head?_take, if_neg (by decide), if_neg (by decide)] at hhead

theorem Piece.isFraction_take_two (t : Text) : isFraction (t.take 2) = isFraction t := by
  cases t with
  | nil => rfl
  | cons c t =>
    rw [Bool.eq_iff_iff, List.take_succ_cons, isFraction_cons, isFraction_cons, StopsAt, StopsAt,
      List.head?_take, if_neg (by decide)]

/-- **The two characters that follow a piece settle whether it stops.** -/
theorem Piece.stops_of_take_two {p : Piece} (h : p.Stops after)
    (htwo : after.take 2 = after'.take 2) : p.Stops after' := by
  have hhead := head?_of_take_two htwo
  have hfraction : isFraction after' = isFraction after := by
    rw [← isFraction_take_two after', ← htwo, isFraction_take_two]
  exact h.imp (·.congr hhead) hfraction.trans

end Two

/-! ## 2. Texts that agree -/

section Agree

variable {s t : Text} {n : Nat}

/-- Texts that agree two characters further than a piece goes begin with that piece. -/
theorem pieces_of_agree {p : Piece} {after : Text} (hp : p.Fits after)
    (h : (p.text ++ after).take n = t.take n) (hn : p.text.length + 2 ≤ n) :
    ∃ after', pieces t = p :: pieces after' ∧
      after.take (n - p.text.length) = after'.take (n - p.text.length) := by
  have hle : p.text.length ≤ n := by omega
  have hprefix : p.text <+: t.take n := by
    rw [← h]
    exact List.prefix_take_iff.mpr ⟨List.prefix_append _ _, hle⟩
  obtain ⟨after', rfl⟩ := hprefix.trans (List.take_prefix n t)
  rw [List.take_append, List.take_append, List.append_cancel_left_eq] at h
  refine ⟨after', Piece.pieces_append ⟨hp.1, ?_⟩, h⟩
  have htwo := congrArg (List.take 2) h
  rw [List.take_take, List.take_take, Nat.min_eq_left (by omega)] at htwo
  exact Piece.stops_of_take_two hp.2 htwo

theorem exists_of_mem_head? {p : Piece} (hp : p ∈ (pieces s).head?) :
    ∃ after, s = p.text ++ after ∧ p.Fits after ∧ pieces s = p :: pieces after := by
  cases s with
  | nil => exact absurd hp (by simp)
  | cons c rest =>
    rw [pieces_cons] at hp
    obtain rfl := Option.some.inj hp
    exact ⟨_, (Piece.text_first_append c rest).symm, Piece.fits_first c rest, pieces_cons c rest⟩

theorem head_of_agree {p : Piece} (h : s.take n = t.take n) (hp : p ∈ (pieces s).head?)
    (hn : p.text.length + 2 ≤ n) : p ∈ (pieces t).head? := by
  obtain ⟨after, rfl, hfits, -⟩ := exists_of_mem_head? hp
  obtain ⟨after', hpieces, -⟩ := pieces_of_agree hfits h hn
  rw [hpieces]
  rfl

end Agree

/-! ## 3. Settled spans -/

/-- The spans that end two characters or more before an offset. -/
def settled (n : Nat) (us : List Span) : List Span := us.filter fun u => u.stop + 2 ≤ n

theorem mem_settled_iff {n : Nat} {us : List Span} {u : Span} :
    u ∈ settled n us ↔ u ∈ us ∧ u.stop + 2 ≤ n := by
  simp [settled]

theorem settled_cons (n : Nat) (u : Span) (us : List Span) :
    settled n (u :: us) = if u.stop + 2 ≤ n then u :: settled n us else settled n us := by
  simp [settled, List.filter_cons]

section Tiles

variable {lo hi n : Nat} {u : Span} {us : List Span}

/-- Behind a span that is not settled there is none that is. -/
theorem settled_eq_nil (h : Span.Tiles lo hi us) (hn : ∀ u ∈ us.head?, n < u.stop + 2) :
    settled n us = [] := by
  cases us with
  | nil => rfl
  | cons u us =>
    refine List.filter_eq_nil_iff.mpr ?_
    intro v hv
    have hu := hn u rfl
    rcases List.mem_cons.mp hv with rfl | hv
    · simpa using hu
    · obtain ⟨hle, hlt, -⟩ := h.2.2.bounds.2 v hv
      have hv' : n < v.stop + 2 := by omega
      simpa using hv'

/-- The settled spans come first. -/
theorem settled_prefix (h : Span.Tiles lo hi us) : settled n us <+: us := by
  induction us generalizing lo with
  | nil => exact List.prefix_refl _
  | cons u us ih =>
    by_cases hu : u.stop + 2 ≤ n
    · rw [settled_cons, if_pos hu]
      exact List.cons_prefix_cons.mpr ⟨rfl, ih h.2.2⟩
    · rw [settled_eq_nil h fun v hv => by obtain rfl := Option.some.inj hv; omega]
      exact List.nil_prefix

end Tiles

theorem settled_layOut_eq_nil {t : Text} {n : Nat}
    (h : ∀ p ∈ (pieces t).head?, n < p.text.length + 2) (offset : Nat) (line : Int) :
    settled (offset + n) (Span.layOut offset line (pieces t)) = [] := by
  have htiles := Span.tiles_layOut (fun p hp => text_ne_nil_of_mem_pieces (t := t) hp) offset line
  refine settled_eq_nil htiles ?_
  intro u hu
  cases hpieces : pieces t with
  | nil => exact absurd hu (by simp [hpieces, Span.layOut])
  | cons p ps =>
    rw [hpieces] at hu h
    obtain rfl := Option.some.inj hu
    have := h p rfl
    simp only [Span.ofPiece]
    omega

/-- **Pieces that end two characters before the texts differ are the same**, and so are their
places. -/
theorem settled_layOut {s t : Text} {n : Nat} (h : s.take n = t.take n) (offset : Nat)
    (line : Int) :
    settled (offset + n) (Span.layOut offset line (pieces s)) =
      settled (offset + n) (Span.layOut offset line (pieces t)) := by
  induction n using Nat.strongRecOn generalizing s t offset line with
  | ind n ih =>
  by_cases hsettled : ∃ p ∈ (pieces s).head?, p.text.length + 2 ≤ n
  · obtain ⟨p, hp, hn⟩ := hsettled
    obtain ⟨after, rfl, hfits, hpieces⟩ := exists_of_mem_head? hp
    obtain ⟨after', hpieces', hafter⟩ := pieces_of_agree hfits h hn
    have hpos := List.length_pos_iff.mpr hfits.1.text_ne_nil
    have htail := ih (n - p.text.length) (by omega) hafter (offset + p.text.length)
      (line + p.text.newlines)
    rw [show offset + p.text.length + (n - p.text.length) = offset + n by omega] at htail
    rw [hpieces, hpieces', Span.layOut, Span.layOut, settled_cons, settled_cons, htail]
  · -- no piece of the one text is settled, so none of the other is
    have hnone : ∀ p ∈ (pieces s).head?, n < p.text.length + 2 := by
      intro p hp
      exact Nat.lt_of_not_le fun hn => hsettled ⟨p, hp, hn⟩
    have hnone' : ∀ q ∈ (pieces t).head?, n < q.text.length + 2 := by
      intro q hq
      exact Nat.lt_of_not_le fun hn => hsettled ⟨q, head_of_agree h.symm hq hn, hn⟩
    rw [settled_layOut_eq_nil hnone, settled_layOut_eq_nil hnone']

/-! ## 4. The law -/

/-- **Bounded lookahead.**  If two sources agree on their first `n` characters, then their scans
take the same steps up to two characters before that: the same offsets, tokens and events, and
before all other steps.  So these tokens and diagnostics come first in both scans. -/
theorem scan_lookahead {s t : Text} {n : Nat} (h : s.take n = t.take n) :
    let us := (Scanner.ofSource s).trace
    let vs := (Scanner.ofSource t).trace
    settled n us = settled n vs ∧ settled n us <+: us ∧ settled n vs <+: vs ∧
      (∀ u : Span, u.stop + 2 ≤ n → (u ∈ us ↔ u ∈ vs) ∧ u.textIn s = u.textIn t) ∧
      (settled n us).flatMap Span.tokens <+: (Scan.ofSource s).tokens ∧
      (settled n vs).flatMap Span.tokens <+: (Scan.ofSource t).tokens ∧
      (settled n us).flatMap Span.diagnostics <+: (Scan.ofSource s).diagnostics ∧
      (settled n vs).flatMap Span.diagnostics <+: (Scan.ofSource t).diagnostics := by
  intro us vs
  have hsame : settled n us = settled n vs := by
    have := settled_layOut h 0 1
    rwa [Nat.zero_add, ← trace_ofSource, ← trace_ofSource] at this
  have hus : settled n us <+: us := settled_prefix (tiles_trace s)
  have hvs : settled n vs <+: vs := settled_prefix (tiles_trace t)
  refine ⟨hsame, hus, hvs, ?_, ?_, ?_, ?_, ?_⟩
  · intro u hu
    constructor
    · have hmem : u ∈ settled n us ↔ u ∈ settled n vs := by rw [hsame]
      rwa [mem_settled_iff, mem_settled_iff, and_iff_left hu, and_iff_left hu] at hmem
    · have htake := congrArg (List.take u.stop) h
      rw [List.take_take, List.take_take, Nat.min_eq_left (by omega)] at htake
      rw [Span.textIn, Span.textIn, htake]
  · rw [tokens_ofSource]
    exact (hus.flatMap Span.tokens).trans (List.prefix_append _ _)
  · rw [tokens_ofSource]
    exact (hvs.flatMap Span.tokens).trans (List.prefix_append _ _)
  · rw [diagnostics_ofSource]
    exact hus.flatMap Span.diagnostics
  · rw [diagnostics_ofSource]
    exact hvs.flatMap Span.diagnostics

/-- A word two characters before the difference is kept.  A number one character before it is
not: what follows its point decides whether the point belongs to it. -/
theorem scan_lookahead_point :
    "ab 1.5".toList.take 5 = "ab 1.x".toList.take 5 ∧
      Span.ofPiece 0 1 ⟨.word, "ab".toList⟩ ∈ (Scanner.ofSource "ab 1.x".toList).trace ∧
      Span.ofPiece 3 1 ⟨.number, ['1']⟩ ∈ (Scanner.ofSource "ab 1.x".toList).trace ∧
      Span.ofPiece 3 1 ⟨.number, ['1']⟩ ∉ (Scanner.ofSource "ab 1.5".toList).trace := by
  have hagree : "ab 1.5".toList.take 5 = "ab 1.x".toList.take 5 := by decide
  obtain ⟨-, -, -, hkept, -⟩ := scan_lookahead hagree
  refine ⟨hagree, ?_, ?_, ?_⟩
  · refine (hkept _ ?_).1.mp ?_
    · decide
    · decide +kernel
  · decide +kernel
  · decide +kernel

end Loxeme
