/-
# Traces

The steps that a scanner takes to the end of its source, seen from outside: each one reads a
stretch of the source, adds tokens and notices events.  This module places that trace against
the pieces of the source.

* `steps_eq_walk`: the steps are the pieces of what was not read yet, one by one.
* `tokens_finish`, `finish_snd`: reading all that is left gives what a scan of it gives, on the
  line reached.
* `mem_trace`: a step of a fresh scanner reads a piece that fits where it stands.
* `tiles_trace`: the steps cover the source without gap or overlap.
-/
import Loxeme.Scanner
import Loxeme.Proofs.Cut

namespace Loxeme

/-! ## 1. Spans -/

theorem filterMap_cons_toList {α β : Type} (f : α → Option β) (a : α) (l : List α) :
    (a :: l).filterMap f = (f a).toList ++ l.filterMap f := by
  cases h : f a with
  | none => exact List.filterMap_cons_none h
  | some b => exact List.filterMap_cons_some h

/-- What one step does: the offsets between which it reads, the tokens that it adds, and the
events that it notices. -/
structure Span where
  start : Nat
  stop : Nat
  tokens : List Token
  events : List Event
  deriving DecidableEq, Repr

namespace Span

/-- The characters that are read. -/
def textIn (u : Span) (source : Text) : Text := (source.take u.stop).drop u.start

/-- The diagnostics that are reported. -/
def diagnostics (u : Span) : List Diagnostic := diagnosticsOf u.events

/-- What reading a piece at an offset and on a line does. -/
def ofPiece (offset : Nat) (line : Int) (p : Piece) : Span :=
  { start := offset
    stop := offset + p.text.length
    tokens := (p.token? (line + p.text.newlines)).toList
    events := (p.event? line).toList }

/-- The spans of pieces one after the other. -/
def layOut (offset : Nat) (line : Int) : List Piece → List Span
  | [] => []
  | p :: ps => ofPiece offset line p :: layOut (offset + p.text.length) (line + p.text.newlines) ps

/-- Spans that are not empty and go from one offset to another without gap or overlap. -/
def Tiles (lo hi : Nat) : List Span → Prop
  | [] => lo = hi
  | u :: us => u.start = lo ∧ lo < u.stop ∧ Tiles u.stop hi us

theorem Tiles.bounds {lo hi : Nat} {us : List Span} (h : Tiles lo hi us) :
    lo ≤ hi ∧ ∀ u ∈ us, lo ≤ u.start ∧ u.start < u.stop ∧ u.stop ≤ hi := by
  induction us generalizing lo with
  | nil => exact ⟨Nat.le_of_eq h, by simp⟩
  | cons u us ih =>
    obtain ⟨rfl, hlt, htail⟩ := h
    obtain ⟨hle, hall⟩ := ih htail
    refine ⟨by omega, ?_⟩
    intro v hv
    rcases List.mem_cons.mp hv with rfl | hv
    · exact ⟨Nat.le_refl _, hlt, hle⟩
    · obtain ⟨h1, h2, h3⟩ := hall v hv
      exact ⟨by omega, h2, h3⟩

theorem Tiles.pairwise {lo hi : Nat} {us : List Span} (h : Tiles lo hi us) :
    us.Pairwise (fun u v => u.stop ≤ v.start) := by
  induction us generalizing lo with
  | nil => exact List.Pairwise.nil
  | cons u us ih =>
    exact List.Pairwise.cons (fun v hv => (h.2.2.bounds.2 v hv).1) (ih h.2.2)

/-- The character at an offset is among those that are read. -/
def Covers (u : Span) (offset : Nat) : Prop := u.start ≤ offset ∧ offset < u.stop

/-- **Every offset is covered.** -/
theorem Tiles.exists_covers {lo hi offset : Nat} {us : List Span} (h : Tiles lo hi us)
    (hlo : lo ≤ offset) (hhi : offset < hi) : ∃ u ∈ us, u.Covers offset := by
  induction us generalizing lo with
  | nil =>
    have hnone : lo = hi := h
    omega
  | cons u us ih =>
    obtain ⟨rfl, -, htail⟩ := h
    by_cases hstop : offset < u.stop
    · exact ⟨u, List.mem_cons_self, hlo, hstop⟩
    · obtain ⟨v, hv, hcovers⟩ := ih htail (by omega)
      exact ⟨v, List.mem_cons_of_mem _ hv, hcovers⟩

/-- **No offset is covered twice.** -/
theorem Tiles.eq_of_covers {lo hi offset : Nat} {us : List Span} {u v : Span} (h : Tiles lo hi us)
    (hu : u ∈ us) (hv : v ∈ us) (hcovers : u.Covers offset) (hcovers' : v.Covers offset) :
    v = u := by
  have hapart : ∀ {x y : Span}, x.Covers offset → y.Covers offset → ¬ x.stop ≤ y.start := by
    intro x y hx hy
    have := hx.2
    have := hy.1
    omega
  obtain ⟨vs, ws, rfl⟩ := List.append_of_mem hu
  obtain ⟨-, hbehind, hbefore⟩ := List.pairwise_append.mp h.pairwise
  rcases List.mem_append.mp hv with hv | hv
  · exact absurd (hbefore v hv u List.mem_cons_self) (hapart hcovers' hcovers)
  rcases List.mem_cons.mp hv with rfl | hv
  · rfl
  · exact absurd ((List.pairwise_cons.mp hbehind).1 v hv) (hapart hcovers hcovers')

end Span

/-- The line of an offset: one more than the newlines before it. -/
def Text.lineAt (source : Text) (offset : Nat) : Int := 1 + Text.newlines (source.take offset)

namespace Scanner

/-- What each of some steps adds to the tokens before it. -/
def spansAfter (before : Nat) : List (Scanner × List Event) → List Span
  | [] => []
  | (s, events) :: rest =>
    ⟨s.start, s.position, s.tokens.drop before, events⟩ :: spansAfter s.tokens.length rest

/-- All steps of a scanner to the end of its source. -/
def trace (s : Scanner) : List Span := spansAfter s.tokens.length s.steps

/-! ## 2. Steps and pieces -/

/-- The scanner after a piece. -/
def read (s : Scanner) (p : Piece) : Scanner := s.mark.take p

/-- The steps that read given pieces. -/
def walk (s : Scanner) : List Piece → List (Scanner × List Event)
  | [] => []
  | p :: ps => (s.read p, (p.event? s.line).toList) :: (s.read p).walk ps

section Read

variable {s : Scanner} {p : Piece} {ps : List Piece}

@[simp] theorem source_read : (s.read p).source = s.source := rfl

@[simp] theorem start_read : (s.read p).start = s.position := rfl

@[simp] theorem position_read : (s.read p).position = s.position + p.text.length := rfl

@[simp] theorem line_read : (s.read p).line = s.line + p.text.newlines := rfl

@[simp] theorem finished_read : (s.read p).finished = s.finished := rfl

@[simp] theorem tokens_read :
    (s.read p).tokens = s.tokens ++ (p.token? (s.line + p.text.newlines)).toList := rfl

theorem rest_read {after : Text} (h : s.rest = p.text ++ after) : (s.read p).rest = after := by
  have h' : (s.source.drop s.position).drop p.text.length = after := by
    rw [show s.source.drop s.position = p.text ++ after from h, List.drop_left]
  rwa [List.drop_drop] at h'

theorem step?_of_rest_nil (h : s.rest = []) : s.step? = none := by
  rw [step?, h]

theorem step?_of_rest_cons {c : Char} {cs : Text} (h : s.rest = c :: cs) :
    s.step? =
      some (s.read (Piece.first c cs).1, ((Piece.first c cs).1.event? s.line).toList) := by
  simp only [step?, h]
  rfl

/-- A step is the first of all that are left. -/
theorem steps_of_step? {s' : Scanner} {events : List Event} (h : s.step? = some (s', events)) :
    s.steps = (s', events) :: s'.steps := by
  rw [steps]
  split
  · rename_i h'; rw [h] at h'; exact absurd h' (by simp)
  · rename_i s'' events' h'
    rw [h] at h'
    obtain ⟨rfl, rfl⟩ := Prod.mk.inj (Option.some.inj h')
    rfl

theorem steps_of_rest_nil (h : s.rest = []) : s.steps = [] := by
  rw [steps]
  split
  · rfl
  · rename_i s' events h'
    rw [step?_of_rest_nil h] at h'
    exact absurd h' (by simp)

end Read

/-- **The steps of a scanner are the pieces of what it did not read yet.** -/
theorem steps_eq_walk : ∀ (t : Text) (s : Scanner), s.rest = t → s.steps = s.walk (pieces t) := by
  intro t
  fun_induction pieces t with
  | case1 =>
    intro s h
    rw [steps_of_rest_nil h]
    rfl
  | case2 c cs ih =>
    intro s h
    have hrest : (s.read (Piece.first c cs).1).rest = (Piece.first c cs).2 :=
      rest_read (by rw [h, Piece.text_first_append])
    rw [steps_of_step? (step?_of_rest_cons h), ih _ hrest]
    rfl

/-! ## 3. Reading to the end -/

/-- The scanner after pieces. -/
def readAll (s : Scanner) (ps : List Piece) : Scanner := ps.foldl read s

section ReadAll

variable (s : Scanner) (ps : List Piece)

/-- The scanner that the last of some steps leaves. -/
theorem getLast_walk : (((s.walk ps).getLast?.map Prod.fst).getD s) = s.readAll ps := by
  induction ps generalizing s with
  | nil => rfl
  | cons p ps ih =>
    rw [readAll, List.foldl_cons, ← readAll, ← ih (s.read p), walk]
    cases h : (s.read p).walk ps with
    | nil => rfl
    | cons x xs => simp [List.getLast?_eq_some_getLast]

theorem source_readAll : (s.readAll ps).source = s.source := by
  induction ps generalizing s with
  | nil => rfl
  | cons p ps ih => exact ih (s.read p)

theorem finished_readAll : (s.readAll ps).finished = s.finished := by
  induction ps generalizing s with
  | nil => rfl
  | cons p ps ih => exact ih (s.read p)

theorem position_readAll :
    (s.readAll ps).position = s.position + (ps.map Piece.text).flatten.length := by
  induction ps generalizing s with
  | nil => rfl
  | cons p ps ih =>
    rw [readAll, List.foldl_cons, ← readAll, ih (s.read p), position_read, List.map_cons,
      List.flatten_cons, List.length_append, Nat.add_assoc]

theorem line_readAll :
    (s.readAll ps).line = s.line + Text.newlines (ps.map Piece.text).flatten := by
  induction ps generalizing s with
  | nil => simp [readAll]
  | cons p ps ih =>
    rw [readAll, List.foldl_cons, ← readAll, ih (s.read p), line_read, List.map_cons,
      List.flatten_cons, Text.newlines_append]
    omega

theorem tokens_readAll :
    (s.readAll ps).tokens = s.tokens ++ (place s.line ps).filterMap Placed.token? := by
  induction ps generalizing s with
  | nil => simp [readAll, place]
  | cons p ps ih =>
    rw [readAll, List.foldl_cons, ← readAll, ih (s.read p), tokens_read, line_read, place,
      List.append_assoc, filterMap_cons_toList]
    rfl

theorem events_walk :
    (s.walk ps).flatMap Prod.snd = (place s.line ps).filterMap Placed.event? := by
  induction ps generalizing s with
  | nil => rfl
  | cons p ps ih =>
    rw [walk, List.flatMap_cons, ih (s.read p), line_read, place, filterMap_cons_toList]
    rfl

end ReadAll

theorem finish_fst (s : Scanner) :
    s.finish.1 =
      { s.readAll (pieces s.rest) with
        finished := true
        tokens := (s.readAll (pieces s.rest)).tokens ++
          [Token.endOn (s.readAll (pieces s.rest)).line] } := by
  have hlast : ((s.steps.getLast?.map Prod.fst).getD s) = s.readAll (pieces s.rest) := by
    rw [steps_eq_walk s.rest s rfl, getLast_walk]
  unfold finish
  dsimp only
  rw [hlast]

theorem finish_snd (s : Scanner) : s.finish.2 = (Scan.startingOn s.line s.rest).events := by
  unfold finish
  dsimp only
  rw [steps_eq_walk s.rest s rfl, events_walk]
  rfl

/-- **Reading all that is left** adds the tokens that a scan of it gives, on the line reached. -/
theorem tokens_finish (s : Scanner) :
    s.finish.1.tokens = s.tokens ++ (Scan.startingOn s.line s.rest).tokens := by
  rw [finish_fst]
  dsimp only
  rw [tokens_readAll, line_readAll, flatten_text_pieces, List.append_assoc]
  rfl

theorem finish_ofSource (source : Text) :
    (ofSource source).finish.1.tokens = (Scan.ofSource source).tokens ∧
      (ofSource source).finish.2 = (Scan.ofSource source).events := by
  rw [tokens_finish, finish_snd]
  exact ⟨rfl, rfl⟩

/-! ## 4. The trace -/

theorem trace_eq_layOut (s : Scanner) : s.trace = Span.layOut s.position s.line (pieces s.rest) := by
  have h : ∀ (ps : List Piece) (s : Scanner),
      spansAfter s.tokens.length (s.walk ps) = Span.layOut s.position s.line ps := by
    intro ps
    induction ps with
    | nil => intro s; rfl
    | cons p ps ih =>
      intro s
      rw [walk, spansAfter, ih (s.read p), Span.layOut, Span.ofPiece, tokens_read, List.drop_left]
      rfl
  rw [trace, steps_eq_walk s.rest s rfl, h]

end Scanner

namespace Span

/-- A layout is cut where its pieces are: before a span stands the layout of the pieces before its
piece. -/
theorem exists_of_layOut_eq {ps : List Piece} {offset : Nat} {line : Int} {us vs : List Span}
    {u : Span} (h : layOut offset line ps = us ++ u :: vs) :
    ∃ before p after, ps = before ++ p :: after ∧ us = layOut offset line before ∧
      u = ofPiece (offset + (before.map Piece.text).flatten.length)
        (line + Text.newlines (before.map Piece.text).flatten) p := by
  induction us generalizing ps offset line with
  | nil =>
    cases ps with
    | nil => exact absurd h (by simp [layOut])
    | cons p ps =>
      obtain ⟨rfl, -⟩ := List.cons.inj h
      exact ⟨[], p, ps, rfl, rfl, by simp⟩
  | cons w us ih =>
    cases ps with
    | nil => exact absurd h (by simp [layOut])
    | cons q ps =>
      obtain ⟨rfl, htail⟩ := List.cons.inj h
      obtain ⟨before, p, after, rfl, rfl, hu⟩ := ih htail
      refine ⟨q :: before, p, after, rfl, rfl, ?_⟩
      rw [hu, List.map_cons, List.flatten_cons, List.length_append, Text.newlines_append]
      congr 1 <;> omega

/-- A span of a layout comes from a piece behind the pieces before it. -/
theorem exists_of_mem_layOut {ps : List Piece} {offset : Nat} {line : Int} {u : Span}
    (h : u ∈ layOut offset line ps) :
    ∃ before p after, ps = before ++ p :: after ∧
      u = ofPiece (offset + (before.map Piece.text).flatten.length)
        (line + Text.newlines (before.map Piece.text).flatten) p := by
  obtain ⟨us, vs, hsplit⟩ := List.append_of_mem h
  obtain ⟨before, p, after, hps, -, hu⟩ := exists_of_layOut_eq hsplit
  exact ⟨before, p, after, hps, hu⟩

theorem tiles_layOut {ps : List Piece} (hne : ∀ p ∈ ps, p.text ≠ []) (offset : Nat) (line : Int) :
    Tiles offset (offset + (ps.map Piece.text).flatten.length) (layOut offset line ps) := by
  induction ps generalizing offset line with
  | nil => rfl
  | cons p ps ih =>
    have hp := List.length_pos_iff.mpr (hne p List.mem_cons_self)
    have htail := ih (fun q hq => hne q (List.mem_cons_of_mem _ hq)) (offset + p.text.length)
      (line + p.text.newlines)
    refine ⟨rfl, Nat.lt_add_of_pos_right hp, ?_⟩
    rw [List.map_cons, List.flatten_cons, List.length_append, ← Nat.add_assoc]
    exact htail

/-- What the spans of pieces hold, put together, is read off the pieces in their places. -/
theorem flatMap_layOut {α : Type} {f : Span → List α} {g : Placed → Option α}
    (h : ∀ offset line p, f (ofPiece offset line p) = (g ⟨p, line⟩).toList) (ps : List Piece)
    (offset : Nat) (line : Int) :
    (layOut offset line ps).flatMap f = (place line ps).filterMap g := by
  induction ps generalizing offset line with
  | nil => rfl
  | cons p ps ih => rw [layOut, List.flatMap_cons, ih, place, filterMap_cons_toList, h]

theorem tokens_layOut (ps : List Piece) (offset : Nat) (line : Int) :
    (layOut offset line ps).flatMap tokens = (place line ps).filterMap Placed.token? :=
  flatMap_layOut (fun _ _ _ => rfl) ps offset line

theorem events_layOut (ps : List Piece) (offset : Nat) (line : Int) :
    (layOut offset line ps).flatMap events = (place line ps).filterMap Placed.event? :=
  flatMap_layOut (fun _ _ _ => rfl) ps offset line

end Span

section Fresh

variable (source : Text)

theorem trace_ofSource : (Scanner.ofSource source).trace = Span.layOut 0 1 (pieces source) :=
  Scanner.trace_eq_layOut _

/-- **A step reads a piece that fits where it stands.** -/
theorem mem_trace {source : Text} {u : Span} (h : u ∈ (Scanner.ofSource source).trace) :
    ∃ before p after, source = before ++ p.text ++ after ∧ p.Fits after ∧
      u = Span.ofPiece before.length (1 + Text.newlines before) p := by
  rw [trace_ofSource] at h
  obtain ⟨before, p, after, hpieces, hu⟩ := Span.exists_of_mem_layOut h
  have hproper := proper_pieces source
  rw [hpieces] at hproper
  refine ⟨(before.map Piece.text).flatten, p, (after.map Piece.text).flatten, ?_,
    hproper.fits, by rw [hu, Nat.zero_add]⟩
  rw [← flatten_text_pieces source, hpieces]
  simp

/-- **The steps cover the source.** -/
theorem tiles_trace : Span.Tiles 0 source.length (Scanner.ofSource source).trace := by
  have h := Span.tiles_layOut (fun p hp => text_ne_nil_of_mem_pieces (t := source) hp) 0 1
  rwa [flatten_text_pieces, Nat.zero_add, ← trace_ofSource] at h

theorem tokens_ofSource :
    (Scan.ofSource source).tokens =
      (Scanner.ofSource source).trace.flatMap Span.tokens ++
        [Token.endOn (source.lineAt source.length)] := by
  rw [trace_ofSource, Span.tokens_layOut, Text.lineAt, List.take_length]
  rfl

theorem events_ofSource :
    (Scan.ofSource source).events = (Scanner.ofSource source).trace.flatMap Span.events := by
  rw [trace_ofSource, Span.events_layOut]
  rfl

theorem diagnostics_ofSource :
    (Scan.ofSource source).diagnostics =
      (Scanner.ofSource source).trace.flatMap Span.diagnostics := by
  rw [Scan.diagnostics, events_ofSource, diagnosticsOf, List.filterMap_flatMap]
  rfl

end Fresh

/-! ## 5. Where a step stands -/

namespace Span

variable {before after : Text} {line : Int} {p : Piece}

theorem take_start_ofPiece :
    (before ++ p.text ++ after).take (ofPiece before.length line p).start = before := by
  rw [ofPiece, List.append_assoc, List.take_left]

theorem take_stop_ofPiece :
    (before ++ p.text ++ after).take (ofPiece before.length line p).stop = before ++ p.text := by
  rw [ofPiece, ← List.length_append, List.take_left]

theorem drop_stop_ofPiece :
    (before ++ p.text ++ after).drop (ofPiece before.length line p).stop = after := by
  rw [ofPiece, ← List.length_append, List.drop_left]

theorem drop_start_ofPiece :
    (before ++ p.text ++ after).drop (ofPiece before.length line p).start = p.text ++ after := by
  rw [ofPiece, List.append_assoc, List.drop_left]

theorem textIn_ofPiece :
    (ofPiece before.length line p).textIn (before ++ p.text ++ after) = p.text := by
  rw [textIn, take_stop_ofPiece, ofPiece, List.drop_left]

theorem lineAt_start_ofPiece :
    Text.lineAt (before ++ p.text ++ after) (ofPiece before.length line p).start =
      1 + Text.newlines before := by
  rw [Text.lineAt, take_start_ofPiece]

theorem lineAt_stop_ofPiece :
    Text.lineAt (before ++ p.text ++ after) (ofPiece before.length line p).stop =
      1 + Text.newlines before + p.text.newlines := by
  rw [Text.lineAt, take_stop_ofPiece, Text.newlines_append]
  omega

end Span
end Loxeme
