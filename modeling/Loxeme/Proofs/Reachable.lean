/-
# Reachable stations

A scanner may be asked for anything in any order: to finish, to read one piece, to move by one
character, or only to look.  This module says what holds of every station that can be reached
so.

* `Change` lists what an action can do to a station; `change_perform` says that it does nothing
  else, and everything below is read off that list.
* `Sound` is the invariant of a scanner, and `sound_of_change` its step.
* `perform_eq_error_iff` says exactly which actions are refused, and `perform_of_error` that a
  refused action leaves the station as it was.
* `station_sound` puts these together for every sequence of actions.
-/
import Loxeme.Proofs.LineNumbers

namespace Loxeme

/-! ## 1. What an action can do -/

namespace Scanner

/-- The scanner one character further on. -/
def advance (s : Scanner) : Scanner := { s with position := s.position + 1 }

theorem rest_eq_nil_iff {s : Scanner} : s.rest = [] ↔ s.source.length ≤ s.position :=
  List.drop_eq_nil_iff

end Scanner

namespace Station

/-- What an action can do to a station: nothing, make the next piece start here although there
is none, move by one character, read one piece, or read all that is left. -/
inductive Change (st : Station) : Station → Prop
  | none : Change st st
  | marked (hrest : st.scanner.rest = []) : Change st { st with scanner := st.scanner.mark }
  | advanced (hrest : st.scanner.rest ≠ []) : Change st { st with scanner := st.scanner.advance }
  | read {p : Piece} {after : Text} (hrest : st.scanner.rest = p.text ++ after)
      (hp : p.Fits after) :
      Change st (st.after (st.scanner.read p) (p.event? st.scanner.line).toList)
  | finished (hf : st.scanner.finished = false) :
      Change st (st.after st.scanner.finish.1 st.scanner.finish.2)

/-- What reading a piece does: it is refused at the end of the source, and otherwise reads the
piece that fits. -/
theorem perform_step_cases (st : Station) :
    (st.scanner.rest = [] ∧ (st.perform .step).1 = { st with scanner := st.scanner.mark }) ∨
      ∃ (p : Piece) (after : Text), st.scanner.rest = p.text ++ after ∧ p.Fits after ∧
        (st.perform .step).1 =
          st.after (st.scanner.read p) (p.event? st.scanner.line).toList := by
  rw [perform]
  cases hrest : st.scanner.rest with
  | nil =>
    rw [Scanner.step?_of_rest_nil hrest]
    exact Or.inl ⟨rfl, rfl⟩
  | cons c cs =>
    rw [Scanner.step?_of_rest_cons hrest]
    exact Or.inr ⟨_, _, (Piece.text_first_append c cs).symm, Piece.fits_first c cs, rfl⟩

theorem change_perform (st : Station) (a : Action) : Change st (st.perform a).1 := by
  cases a with
  | finish =>
    rw [perform]
    split
    · exact .none
    · rename_i hf
      exact .finished (by simpa using hf)
  | step =>
    rcases st.perform_step_cases with ⟨hrest, h⟩ | ⟨p, rest, hrest, hp, h⟩
    · rw [h]
      exact .marked hrest
    · rw [h]
      exact .read hrest hp
  | skip =>
    rw [perform, Scanner.skip?]
    cases hrest : st.scanner.rest with
    | nil => exact .none
    | cons c cs => exact .advanced (by simp [hrest])
  | accept expected =>
    rw [perform, Scanner.accept]
    cases hrest : st.scanner.rest with
    | nil => exact .none
    | cons c cs =>
      dsimp only
      split
      · exact .advanced (by simp [hrest])
      · exact .none
  | next => exact .none
  | afterNext => exact .none
  | atEnd => exact .none
  | inspect => exact .none

/-! ## 2. Refusals -/

/-- **Which actions are refused.**  Finishing a scanner that has finished, and moving on or
reading at the end of the source. -/
theorem perform_eq_error_iff (st : Station) (a : Action) (r : Refusal) :
    (st.perform a).2 = .error r ↔
      (r = .alreadyFinished ∧ a = .finish ∧ st.scanner.finished = true) ∨
        (r = .endOfSource ∧ (a = .skip ∨ a = .step) ∧
          st.scanner.source.length ≤ st.scanner.position) := by
  cases a with
  | finish =>
    rw [perform]
    split
    · rename_i hf
      constructor
      · rintro ⟨⟩; simp [hf]
      · rintro (⟨rfl, -, -⟩ | ⟨-, h, -⟩)
        · rfl
        · exact absurd h (by simp)
    · rename_i hf
      simp [hf]
  | step =>
    rw [perform, ← Scanner.rest_eq_nil_iff]
    cases hrest : st.scanner.rest with
    | nil =>
      rw [Scanner.step?_of_rest_nil hrest]
      constructor
      · rintro ⟨⟩; simp
      · rintro (⟨-, h, -⟩ | ⟨rfl, -, -⟩)
        · exact absurd h (by simp)
        · rfl
    | cons c cs =>
      rw [Scanner.step?_of_rest_cons hrest]
      simp
  | skip =>
    rw [perform, Scanner.skip?, ← Scanner.rest_eq_nil_iff]
    cases hrest : st.scanner.rest with
    | nil =>
      constructor
      · rintro ⟨⟩; simp
      · rintro (⟨-, h, -⟩ | ⟨rfl, -, -⟩)
        · exact absurd h (by simp)
        · rfl
    | cons c cs => simp
  | _ => simp [perform]

/-- **A refused action leaves the station as it was**, but for the start of the piece that
could not be read. -/
theorem perform_of_error {st : Station} {a : Action} {r : Refusal}
    (h : (st.perform a).2 = .error r) :
    (st.perform a).1 = if a = .step then { st with scanner := st.scanner.mark } else st := by
  rcases (perform_eq_error_iff st a r).mp h with ⟨-, rfl, hf⟩ | ⟨-, rfl | rfl, hend⟩
  · rw [perform, if_pos hf]
    rfl
  · have hrest := Scanner.rest_eq_nil_iff.mpr hend
    rw [perform, Scanner.skip?, hrest]
    rfl
  · have hnone := (Scanner.step?_eq_none_iff st.scanner).mpr hend
    rw [perform, hnone]
    rfl

end Station

/-! ## 3. The invariant -/

/-- The texts are cut out of the source before an offset: in order, none of them empty, and
without overlap. -/
def Text.Slices (source : Text) (limit : Nat) (ts : List Text) : Prop :=
  ∃ bounds : List (Nat × Nat), bounds.Pairwise (fun a b => a.2 ≤ b.1) ∧
    (∀ b ∈ bounds, b.1 < b.2 ∧ b.2 ≤ limit) ∧
    ts = bounds.map fun b => (source.take b.2).drop b.1

namespace Text

variable {source : Text} {ts : List Text} {m n : Nat}

theorem slices_nil (source : Text) (n : Nat) : source.Slices n [] :=
  ⟨[], List.Pairwise.nil, by simp, rfl⟩

theorem Slices.mono (h : source.Slices m ts) (hmn : m ≤ n) : source.Slices n ts := by
  obtain ⟨bounds, hpair, hbounds, hts⟩ := h
  exact ⟨bounds, hpair, fun b hb => ⟨(hbounds b hb).1, Nat.le_trans (hbounds b hb).2 hmn⟩, hts⟩

/-- One more text, behind all others. -/
theorem Slices.snoc (h : source.Slices m ts) (hmn : m < n) :
    source.Slices n (ts ++ [(source.take n).drop m]) := by
  obtain ⟨bounds, hpair, hbounds, rfl⟩ := h
  refine ⟨bounds ++ [(m, n)], ?_, ?_, by simp⟩
  · rw [List.pairwise_append]
    refine ⟨hpair, List.pairwise_singleton _ _, ?_⟩
    intro a ha b hb
    obtain rfl := List.mem_singleton.mp hb
    exact (hbounds a ha).2
  · intro b hb
    rcases List.mem_append.mp hb with hb | hb
    · exact ⟨(hbounds b hb).1, by have := (hbounds b hb).2; omega⟩
    · obtain rfl := List.mem_singleton.mp hb
      exact ⟨hmn, Nat.le_refl _⟩

end Text

namespace Scanner

/-- **The invariant of a scanner.**  The offsets are in order and inside the source, the line is
not past the line of the position, the tokens are slices of what was read, and the end token
is there, as the last one and at the end of the source, exactly if the scanner has finished. -/
structure Sound (s : Scanner) : Prop where
  start_le : s.start ≤ s.position
  position_le : s.position ≤ s.source.length
  one_le_line : 1 ≤ s.line
  line_le : s.line ≤ s.source.lineAt s.position
  tokens_eq : ∃ ts : List Token, (∀ t ∈ ts, t.kind ≠ .endOfSource) ∧
    s.source.Slices s.position (ts.map Token.lexeme) ∧
    s.tokens = if s.finished then ts ++ [Token.endOn s.line] else ts
  position_eq : s.finished = true → s.position = s.source.length

section Steps

variable {s : Scanner} {p : Piece} {after : Text}

theorem sound_ofSource (source : Text) : (ofSource source).Sound where
  start_le := Nat.le_refl _
  position_le := Nat.zero_le _
  one_le_line := Int.le_refl _
  line_le := by simp [ofSource, Text.lineAt]
  tokens_eq := ⟨[], by simp, source.slices_nil 0, rfl⟩
  position_eq := by simp [ofSource]

theorem sound_mark (h : s.Sound) : s.mark.Sound :=
  { h with start_le := Nat.le_refl _ }

/-- A scanner that has finished has nothing left to read. -/
theorem Sound.finished_eq_false (h : s.Sound) (hrest : s.rest ≠ []) : s.finished = false := by
  rw [Bool.eq_false_iff]
  intro hf
  exact hrest (rest_eq_nil_iff.mpr (Nat.le_of_eq (h.position_eq hf).symm))

theorem sound_advance (h : s.Sound) (hrest : s.rest ≠ []) : s.advance.Sound := by
  have hf := h.finished_eq_false hrest
  have hlt : s.position < s.source.length := by
    refine Nat.lt_of_not_le ?_
    intro hle
    exact hrest (rest_eq_nil_iff.mpr hle)
  obtain ⟨ts, hkind, hslices, htokens⟩ := h.tokens_eq
  refine ⟨Nat.le_succ_of_le h.start_le, hlt, h.one_le_line, ?_,
    ⟨ts, hkind, hslices.mono (Nat.le_succ _), htokens⟩, ?_⟩
  · exact Int.le_trans h.line_le (s.source.lineAt_mono (Nat.le_succ _))
  · intro hf'
    rw [advance, hf] at hf'
    exact absurd hf' (by simp)

theorem take_read (hrest : s.rest = p.text ++ after) :
    s.source.take (s.position + p.text.length) = s.source.take s.position ++ p.text := by
  rw [List.take_add, show s.source.drop s.position = p.text ++ after from hrest, List.take_left]

theorem length_read (hrest : s.rest = p.text ++ after) (h : s.position ≤ s.source.length) :
    s.position + p.text.length ≤ s.source.length := by
  have hlen := congrArg List.length hrest
  rw [rest, List.length_drop, List.length_append] at hlen
  omega

/-- **Reading a piece keeps the invariant.** -/
theorem sound_read (h : s.Sound) (hrest : s.rest = p.text ++ after) (hp : p.text ≠ []) :
    (s.read p).Sound := by
  have hf := h.finished_eq_false (by rw [hrest]; simp [hp])
  have hpos := List.length_pos_iff.mpr hp
  have hline := h.line_le
  obtain ⟨ts, hkind, hslices, htokens⟩ := h.tokens_eq
  rw [hf] at htokens
  refine ⟨?_, length_read hrest h.position_le, ?_, ?_, ?_, ?_⟩
  · simp
  · have := h.one_le_line
    rw [line_read]
    omega
  · rw [line_read, source_read, position_read, Text.lineAt, take_read hrest, Text.newlines_append]
    rw [Text.lineAt] at hline
    omega
  · rw [tokens_read, finished_read, source_read, position_read, hf]
    cases htoken : p.token? (s.line + p.text.newlines) with
    | none =>
      refine ⟨ts, hkind, hslices.mono (Nat.le_add_right _ _), ?_⟩
      simpa using htokens
    | some t =>
      obtain ⟨hlexeme, -, hend⟩ := Piece.token_of_mem htoken
      refine ⟨ts ++ [t], ?_, ?_, by simpa using htokens⟩
      · intro t' ht'
        rcases List.mem_append.mp ht' with ht' | ht'
        · exact hkind t' ht'
        · obtain rfl := List.mem_singleton.mp ht'
          exact hend
      · have hnew := hslices.snoc (Nat.lt_add_of_pos_right hpos)
        rw [take_read hrest, List.drop_left' (List.length_take_of_le h.position_le)] at hnew
        rw [List.map_append, List.map_singleton, hlexeme]
        exact hnew
  · intro hf'
    rw [finished_read, hf] at hf'
    exact absurd hf' (by simp)

/-- ...and so does reading any pieces that come next. -/
theorem sound_readAll {ps : List Piece} (h : s.Sound)
    (hrest : s.rest = (ps.map Piece.text).flatten) (hne : ∀ p ∈ ps, p.text ≠ []) :
    (s.readAll ps).Sound := by
  induction ps generalizing s with
  | nil => exact h
  | cons p ps ih =>
    exact ih (sound_read h hrest (hne p List.mem_cons_self)) (rest_read hrest)
      fun q hq => hne q (List.mem_cons_of_mem _ hq)

theorem sound_finish (h : s.Sound) (hf : s.finished = false) : s.finish.1.Sound := by
  have hall : (s.readAll (pieces s.rest)).Sound :=
    sound_readAll h (flatten_text_pieces s.rest).symm fun p hp => text_ne_nil_of_mem_pieces hp
  have hf' : (s.readAll (pieces s.rest)).finished = false := by rw [finished_readAll, hf]
  have hend : (s.readAll (pieces s.rest)).position = s.source.length := by
    rw [position_readAll, flatten_text_pieces, rest, List.length_drop]
    have := h.position_le
    omega
  obtain ⟨ts, hkind, hslices, htokens⟩ := hall.tokens_eq
  rw [hf'] at htokens
  rw [finish_fst]
  refine ⟨hall.start_le, hall.position_le, hall.one_le_line, hall.line_le,
    ⟨ts, hkind, hslices, ?_⟩, ?_⟩
  · dsimp only
    rw [htokens]
    rfl
  · intro _
    dsimp only
    rw [hend, source_readAll]

end Steps

end Scanner

/-! ## 4. Runs -/

namespace Station

/-- The station of a new scanner. -/
def ofSource (source : Text) (held : Collector) : Station := ⟨.ofSource source, held⟩

/-- The station after some actions, refused ones included. -/
def run (st : Station) (actions : List Action) : Station :=
  actions.foldl (fun st a => (st.perform a).1) st

section Change

variable {st st' : Station}

theorem sound_of_change (hc : Change st st') (h : st.scanner.Sound) : st'.scanner.Sound := by
  cases hc with
  | none => exact h
  | marked _ => exact Scanner.sound_mark h
  | advanced hrest => exact Scanner.sound_advance h hrest
  | read hrest hp => exact Scanner.sound_read h hrest hp.1.text_ne_nil
  | finished hf => exact Scanner.sound_finish h hf

theorem source_of_change (hc : Change st st') : st'.scanner.source = st.scanner.source := by
  cases hc with
  | finished _ =>
    rw [after, Scanner.finish_fst]
    exact Scanner.source_readAll _ _
  | _ => rfl

/-- The token list only grows. -/
theorem prefix_of_change (hc : Change st st') : st.scanner.tokens <+: st'.scanner.tokens := by
  cases hc with
  | read _ _ => exact List.prefix_append _ _
  | finished _ =>
    rw [after, Scanner.tokens_finish]
    exact List.prefix_append _ _
  | _ => exact List.prefix_refl _

/-- What finishing settles: all but the start of the piece that would come next. -/
theorem frozen_of_change (hc : Change st st') (h : st.scanner.Sound)
    (hf : st.scanner.finished = true) :
    st'.scanner.tokens = st.scanner.tokens ∧ st'.scanner.position = st.scanner.position ∧
      st'.scanner.line = st.scanner.line ∧ st'.scanner.finished = true ∧
      st'.collector = st.collector := by
  have hrest : st.scanner.rest = [] :=
    Scanner.rest_eq_nil_iff.mpr (Nat.le_of_eq (h.position_eq hf).symm)
  cases hc with
  | none => exact ⟨rfl, rfl, rfl, hf, rfl⟩
  | marked _ => exact ⟨rfl, rfl, rfl, hf, rfl⟩
  | advanced hne => exact absurd hrest hne
  | read hread hp =>
    rw [hrest] at hread
    exact absurd (List.append_eq_nil_iff.mp hread.symm).1 hp.1.text_ne_nil
  | finished hf' =>
    rw [hf] at hf'
    exact absurd hf' (by simp)

end Change

section Run

variable {st : Station}

theorem sound_run (h : st.scanner.Sound) (actions : List Action) :
    (st.run actions).scanner.Sound := by
  induction actions generalizing st with
  | nil => exact h
  | cons a actions ih => exact ih (sound_of_change (change_perform st a) h)

theorem source_run (st : Station) (actions : List Action) :
    (st.run actions).scanner.source = st.scanner.source := by
  induction actions generalizing st with
  | nil => rfl
  | cons a actions ih => exact (ih _).trans (source_of_change (change_perform st a))

theorem prefix_run (st : Station) (actions : List Action) :
    st.scanner.tokens <+: (st.run actions).scanner.tokens := by
  induction actions generalizing st with
  | nil => exact List.prefix_refl _
  | cons a actions ih => exact (prefix_of_change (change_perform st a)).trans (ih _)

end Run

/-- **Every reachable station is sound.**  After any actions in any order on the station of a
new scanner: its scanner keeps the invariant, whatever is done next only appends tokens, and
nothing but the start of a piece changes once the scanner has finished.  The next action is
refused exactly if it finishes a scanner that has finished, or moves on or reads at the end of
the source, and then it leaves the station as it was, but for the start of the piece that
could not be read. -/
theorem station_sound (source : Text) (held : Collector) (actions : List Action) :
    let st := (ofSource source held).run actions
    st.scanner.source = source ∧ st.scanner.Sound ∧
      (∀ more : List Action, st.scanner.tokens <+: (st.run more).scanner.tokens) ∧
      ∀ a : Action,
        (st.scanner.finished = true →
          (st.perform a).1.scanner.tokens = st.scanner.tokens ∧
            (st.perform a).1.scanner.position = st.scanner.position ∧
            (st.perform a).1.scanner.line = st.scanner.line ∧
            (st.perform a).1.scanner.finished = true ∧
            (st.perform a).1.collector = st.collector) ∧
        (∀ r : Refusal, (st.perform a).2 = .error r ↔
          (r = .alreadyFinished ∧ a = .finish ∧ st.scanner.finished = true) ∨
            (r = .endOfSource ∧ (a = .skip ∨ a = .step) ∧
              st.scanner.position = source.length)) ∧
        (∀ r : Refusal, (st.perform a).2 = .error r →
          (st.perform a).1 =
            if a = .step then { st with scanner := st.scanner.mark } else st) := by
  have hsource : ((ofSource source held).run actions).scanner.source = source :=
    source_run _ actions
  have hsound : ((ofSource source held).run actions).scanner.Sound :=
    sound_run (Scanner.sound_ofSource source) actions
  refine ⟨hsource, hsound, fun more => prefix_run _ more, ?_⟩
  intro a
  refine ⟨?_, ?_, ?_⟩
  · intro hf
    exact frozen_of_change (change_perform _ a) hsound hf
  · intro r
    have hle := hsound.position_le
    rw [perform_eq_error_iff]
    rw [hsource] at hle ⊢
    have hend : source.length ≤ ((ofSource source held).run actions).scanner.position ↔
        ((ofSource source held).run actions).scanner.position = source.length := by omega
    rw [hend]
  · intro r hr
    exact perform_of_error hr

end Station
end Loxeme
