/-
# Skipped text

Comments and characters that belong to nothing leave no token.  This module writes spaces in
their place, keeps the newlines, and shows that a scan gives the same tokens as before, on the
same lines.

The two sources are cut differently: where there was one comment, there is a blank for each of
its characters.  What the pieces outside have in common is that the text behind them has only
faded, here and there a character to a space, and a space makes nothing longer.

* `clearSkipped` writes the spaces, and `faded_clearSkipped` says that it does nothing else.
* `Stops.faded`: a piece that is not skipped stops in front of the faded text as well.
* `startingOn_clearSkipped` goes along the pieces and compares the two scans.
* `scan_clearSkipped` is the law for a source.
-/
import Loxeme.Proofs.Messages
import Loxeme.Proofs.RoundTrip
import Mathlib.Data.List.Forall2

namespace Loxeme

/-! ## 1. Writing spaces -/

/-- The text with spaces in the place of all characters but newlines. -/
def Text.cleared (t : Text) : Text := t.map fun c => if c = '\n' then c else ' '

namespace Piece

/-- The piece is a comment, or a character that belongs to nothing. -/
def isSkipped (p : Piece) : Bool :=
  match p.role with
  | .lineComment | .blockComment | .openComment | .unexpected => true
  | _ => false

/-- The text of a piece, cleared if the piece is skipped. -/
def cleared (p : Piece) : Text := if p.isSkipped then p.text.cleared else p.text

end Piece

/-- The source with spaces in the place of what is skipped, newlines kept. -/
def clearSkipped (source : Text) : Text := (pieces source).flatMap Piece.cleared

/-- The second text is the first with some of its characters turned into spaces. -/
def Faded : Text → Text → Prop := List.Forall₂ fun c d => d = c ∨ d = ' '

theorem blank_cleared (t : Text) : t.cleared.Blank := by
  intro d hd
  obtain ⟨c, -, rfl⟩ := List.mem_map.mp hd
  split
  · rename_i h
    simp [h]
  · simp

@[simp] theorem newlines_cleared (t : Text) : t.cleared.newlines = t.newlines := by
  induction t with
  | nil => rfl
  | cons c t ih =>
    rw [Text.newlines_cons, ← ih]
    by_cases hc : c = '\n' <;> simp [Text.cleared, hc]

theorem Faded.refl (t : Text) : Faded t t := List.forall₂_same.mpr fun _ _ => Or.inl rfl

theorem faded_cleared (t : Text) : Faded t t.cleared := by
  refine List.forall₂_map_right_iff.mpr (List.forall₂_same.mpr ?_)
  intro c _
  split
  · exact Or.inl rfl
  · exact Or.inr rfl

theorem Piece.faded_cleared (p : Piece) : Faded p.text p.cleared := by
  rw [cleared]
  split
  · exact Loxeme.faded_cleared p.text
  · exact Faded.refl p.text

theorem faded_flatMap_cleared (ps : List Piece) :
    Faded (ps.map Piece.text).flatten (ps.flatMap Piece.cleared) := by
  induction ps with
  | nil => exact List.Forall₂.nil
  | cons p ps ih => exact List.rel_append p.faded_cleared ih

/-- **Clearing does nothing but write spaces.** -/
theorem faded_clearSkipped (source : Text) : Faded source (clearSkipped source) := by
  have h := faded_flatMap_cleared (pieces source)
  rwa [flatten_text_pieces] at h

example : clearSkipped "a/*b\n*/#c//d".toList = "a   \n   c   ".toList := by decide +kernel

/-! ## 2. A space makes nothing longer -/

section Fading

variable {t u : Text}

theorem StopsAt.faded {f : Char → Bool} (h : StopsAt f t) (hf : f ' ' = false)
    (htu : Faded t u) : StopsAt f u := by
  cases htu with
  | nil => exact h
  | cons hcd _ =>
    rw [stopsAt_cons] at h ⊢
    rcases hcd with rfl | rfl
    · exact h
    · exact hf

/-- A point and a digit do not come of spaces. -/
theorem Piece.isFraction_faded (h : isFraction t = false) (htu : Faded t u) :
    isFraction u = false := by
  cases htu with
  | nil => rfl
  | cons hcd htail =>
    refine isFraction_cons_eq_false.mpr ?_
    rintro rfl
    obtain rfl := hcd.resolve_right (by decide)
    exact (isFraction_cons_eq_false.mp h rfl).faded (by decide) htail

/-- **A piece that is not skipped stops in front of the faded text as well.** -/
theorem Piece.Stops.faded {p : Piece} (h : p.Stops t) (hp : p.isSkipped = false)
    (htu : Faded t u) : p.Stops u := by
  refine h.imp ?_ (isFraction_faded · htu)
  intro hone
  obtain ⟨role, text⟩ := p
  cases role with
  | operator o => exact hone.faded (by cases o <;> rfl) htu
  | openString =>
    -- nothing is behind an open string, and nothing comes there
    obtain rfl : t = [] := h
    obtain rfl := List.forall₂_nil_left_iff.mp htu
    exact stopsAt_nil _
  | lineComment | blockComment | openComment | unexpected =>
    exact absurd hp (by simp [isSkipped])
  | _ => exact hone.faded rfl htu

end Fading

theorem Piece.Proper.fits_cleared {p : Piece} {ps : List Piece} (h : Proper (p :: ps))
    (hp : p.isSkipped = false) : p.Fits (ps.flatMap cleared) :=
  ⟨h.1.1, h.1.2.faded hp (faded_flatMap_cleared ps)⟩

/-! ## 3. What is said about the source -/

/-- The diagnostic tells that a string is not closed. -/
def Diagnostic.isUnterminated (d : Diagnostic) : Bool :=
  d.message = Fault.unterminatedString.message

/-- The event reports a string that is not closed. -/
def Event.isUnterminated (e : Event) : Bool := e.diagnostic?.any Diagnostic.isUnterminated

theorem Event.exists_of_isUnterminated {e : Event} (h : e.isUnterminated = true) :
    ∃ line, e = .reported (.ofFault line .unterminatedString) := by
  cases e with
  | reported d =>
    obtain ⟨line, message⟩ := d
    obtain rfl : message = Fault.unterminatedString.message := of_decide_eq_true h
    exact ⟨line, rfl⟩
  | _ => exact absurd h (by simp [isUnterminated, diagnostic?])

theorem diagnosticsOf_filter (es : List Event) :
    diagnosticsOf (es.filter Event.isUnterminated) =
      (diagnosticsOf es).filter Diagnostic.isUnterminated := by
  rw [diagnosticsOf, diagnosticsOf, List.filterMap_filter, List.filter_filterMap]
  refine congrArg (List.filterMap · es) (funext fun e => ?_)
  cases h : e.diagnostic? with
  | none => simp
  | some d => simp [Event.isUnterminated, h, Option.filter]

namespace Piece

theorem token?_of_isSkipped {p : Piece} (h : p.isSkipped = true) (line : Int) :
    p.token? line = none := by
  obtain ⟨role, text⟩ := p
  cases role with
  | lineComment | blockComment | openComment | unexpected => rfl
  | _ => exact absurd h (by simp [isSkipped])

/-- Among what is said about a piece, a string that is not closed is what is left outside of
skipped text. -/
theorem filter_event? (p : Piece) (line : Int) :
    (p.event? line).toList.filter Event.isUnterminated =
      if p.isSkipped then [] else (p.event? line).toList := by
  obtain ⟨role, text⟩ := p
  cases role with
  | unexpected =>
    cases text with
    | nil => rfl
    | cons c text =>
      simp [event?, isSkipped, Event.isUnterminated, Event.diagnostic?, Diagnostic.isUnterminated,
        Diagnostic.ofFault, Fault.message_unexpected_ne]
  | _ => rfl

theorem filter_event?_of_ne {p : Piece} (h : p.role ≠ .openString) (line : Int) :
    (p.event? line).toList.filter Event.isUnterminated = [] := by
  rw [filter_event?]
  obtain ⟨role, text⟩ := p
  cases role with
  | openString => exact absurd rfl h
  | _ => rfl

end Piece

/-! ## 4. The two scans -/

theorem events_startingOn_nil (line : Int) : (Scan.startingOn line []).events = [] := by
  rw [Scan.startingOn, pieces_nil]
  rfl

/-- **Along the pieces.**  Wherever a proper cut starts, clearing what is skipped in it keeps the
tokens, and what is said about strings that are not closed. -/
theorem startingOn_clearSkipped {ps : List Piece} (h : Piece.Proper ps) (line : Int) :
    let scan := Scan.startingOn line (ps.map Piece.text).flatten
    let scan' := Scan.startingOn line (ps.flatMap Piece.cleared)
    scan'.tokens = scan.tokens ∧ scan'.events = scan.events.filter Event.isUnterminated := by
  induction ps generalizing line with
  | nil =>
    refine ⟨rfl, ?_⟩
    rw [List.flatMap_nil, List.map_nil, List.flatten_nil, events_startingOn_nil, List.filter_nil]
  | cons p ps ih =>
    obtain ⟨htokens, hevents⟩ := startingOn_append line h.1
    obtain ⟨ihtokens, ihevents⟩ := ih h.2 (line + p.text.newlines)
    dsimp only
    rw [List.map_cons, List.flatten_cons, List.flatMap_cons, htokens, hevents, List.filter_append,
      Piece.filter_event?]
    cases hp : p.isSkipped with
    | true =>
      obtain ⟨htokens', hevents'⟩ :=
        startingOn_blank line (ps.flatMap Piece.cleared) (blank_cleared p.text)
      rw [newlines_cleared] at htokens' hevents'
      rw [Piece.cleared, if_pos hp, htokens', hevents', ihtokens, ihevents,
        Piece.token?_of_isSkipped hp]
      exact ⟨rfl, rfl⟩
    | false =>
      obtain ⟨htokens', hevents'⟩ := startingOn_append line (h.fits_cleared hp)
      have hcleared : p.cleared = p.text := by simp [Piece.cleared, hp]
      rw [hcleared, htokens', hevents', ihtokens, ihevents]
      exact ⟨rfl, rfl⟩

/-- Nothing is behind a string that is not closed, so there is at most one. -/
theorem length_unterminated_le {ps : List Piece} (h : Piece.Proper ps) (line : Int) :
    ((Scan.startingOn line (ps.map Piece.text).flatten).events.filter
      Event.isUnterminated).length ≤ 1 := by
  induction ps generalizing line with
  | nil => simp [events_startingOn_nil]
  | cons p ps ih =>
    rw [List.map_cons, List.flatten_cons, (startingOn_append line h.1).2, List.filter_append]
    by_cases hp : p.role = .openString
    · have hnil : (ps.map Piece.text).flatten = [] := by
        have hstops := h.1.2
        rwa [Piece.Stops, hp] at hstops
      rw [hnil, events_startingOn_nil, List.filter_nil, List.append_nil]
      exact (List.length_filter_le _ _).trans Option.length_toList_le
    · rw [Piece.filter_event?_of_ne hp, List.nil_append]
      exact ih h.2 _

/-- Blanks are cut into blanks. -/
theorem mem_pieces_blank {gap after : Text} (h : gap.Blank) {p : Piece}
    (hp : p ∈ pieces (gap ++ after)) : p.role = .blank ∨ p ∈ pieces after := by
  induction gap with
  | nil => exact Or.inr hp
  | cons c gap ih =>
    have hc : isBlank c = true := by
      rcases h c List.mem_cons_self with rfl | rfl | rfl | rfl <;> rfl
    rw [List.cons_append, pieces_cons, Piece.first_blank hc] at hp
    rcases List.mem_cons.mp hp with rfl | hp
    · exact Or.inl rfl
    · exact ih (fun d hd => h d (List.mem_cons_of_mem _ hd)) hp

/-- What is left has nothing that is skipped. -/
theorem isSkipped_of_mem_cleared {ps : List Piece} (h : Piece.Proper ps) {p : Piece}
    (hp : p ∈ pieces (ps.flatMap Piece.cleared)) : p.isSkipped = false := by
  induction ps with
  | nil => exact absurd hp (by simp)
  | cons q ps ih =>
    rw [List.flatMap_cons, Piece.cleared] at hp
    split at hp
    · rcases mem_pieces_blank (blank_cleared q.text) hp with hblank | hp
      · rw [Piece.isSkipped, hblank]
      · exact ih h.2 hp
    · rename_i hq
      have hq' : q.isSkipped = false := by simpa using hq
      rw [Piece.pieces_append (h.fits_cleared hq')] at hp
      rcases List.mem_cons.mp hp with rfl | hp
      · exact hq'
      · exact ih h.2 hp

/-! ## 5. The law -/

/-- **Skipped text is inert.**  With spaces in the place of comments and of characters that belong
to nothing, a source has the same tokens.  Of its diagnostics those about strings that are not
closed are left, at most one, and nothing is skipped any more. -/
theorem scan_clearSkipped (source : Text) :
    let scan := Scan.ofSource source
    let scan' := Scan.ofSource (clearSkipped source)
    scan'.tokens = scan.tokens ∧
      scan'.diagnostics =
        scan.diagnostics.filter (fun d => d.message = Fault.unterminatedString.message) ∧
      scan'.diagnostics.length ≤ 1 ∧
      (∀ p ∈ pieces (clearSkipped source), p.isSkipped = false) ∧
      ∀ e ∈ scan'.events, ∃ line, e = .reported (.ofFault line .unterminatedString) := by
  intro scan scan'
  have hproper := proper_pieces source
  have hatMost := length_unterminated_le hproper 1
  obtain ⟨htokens, hevents⟩ := startingOn_clearSkipped hproper 1
  rw [flatten_text_pieces] at htokens hevents hatMost
  have hdiagnostics : scan'.diagnostics = scan.diagnostics.filter Diagnostic.isUnterminated :=
    (congrArg diagnosticsOf hevents).trans (diagnosticsOf_filter scan.events)
  refine ⟨htokens, hdiagnostics, ?_, fun p => isSkipped_of_mem_cleared hproper, ?_⟩
  · refine (List.length_filterMap_le _ _).trans ?_
    exact (congrArg List.length hevents).trans_le hatMost
  · intro e he
    have he' : e ∈ scan.events.filter Event.isUnterminated := hevents ▸ he
    exact Event.exists_of_isUnterminated (List.mem_filter.mp he').2

end Loxeme
