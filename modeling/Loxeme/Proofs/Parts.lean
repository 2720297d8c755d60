/-
# A source in parts

What a scan makes of a source does not depend on what was read before it, but for the line on
which it starts.  So a scanner that was stopped anywhere, also in the middle of a piece, goes on
as a new scanner does on what is left; and two texts with a newline between them are scanned as
each of them is alone.

* `Scan.moved` puts a scan on other lines, and `startingOn_eq_moved` says that the line changes
  nothing else.
* `Station.outcome` is what finishing gives; a step does not change it (`outcome_step`), and
  neither do several (`outcome_run_step`).
* `finish_resumes` is the law for a scanner that is resumed.
* `Piece.Fits.append_newline`: a newline is like the end of the source to every piece that is
  closed.  `scan_append_newline` is the law for two texts.
-/
import Loxeme.Proofs.Reachable
import Loxeme.Proofs.RoundTrip

namespace Loxeme

/-! ## 1. Other lines -/

/-- The token, some lines further on. -/
def Token.moved (k : Int) (t : Token) : Token := { t with line := t.line + k }

/-- The diagnostic, some lines further on. -/
def Diagnostic.moved (k : Int) (d : Diagnostic) : Diagnostic := { d with line := d.line + k }

/-- The event, some lines further on. -/
def Event.moved (k : Int) : Event → Event
  | reported d => reported (d.moved k)
  | neverClosed line => neverClosed (line + k)
  | scanned tokens lines errors => scanned tokens (lines + k) errors
  | e => e

/-- The scan, some lines further on. -/
def Scan.moved (k : Int) (s : Scan) : Scan :=
  ⟨s.tokens.map (Token.moved k), s.events.map (Event.moved k), s.lines + k⟩

theorem Event.diagnostic?_moved (k : Int) (e : Event) :
    (e.moved k).diagnostic? = e.diagnostic?.map (Diagnostic.moved k) := by
  cases e <;> rfl

@[simp] theorem Scan.diagnostics_moved (k : Int) (s : Scan) :
    (s.moved k).diagnostics = s.diagnostics.map (Diagnostic.moved k) := by
  rw [diagnostics, diagnostics, diagnosticsOf, diagnosticsOf, moved, List.filterMap_map,
    List.map_filterMap]
  exact congrArg (List.filterMap · s.events) (funext (Event.diagnostic?_moved k))

section Moved

variable (line k : Int)

theorem Piece.token?_add (p : Piece) : p.token? (line + k) = (p.token? line).map (Token.moved k) := by
  obtain ⟨role, text⟩ := p
  cases role <;> rfl

theorem Piece.event?_add (p : Piece) : p.event? (line + k) = (p.event? line).map (Event.moved k) := by
  obtain ⟨role, text⟩ := p
  cases role with
  | openString =>
    have hline : line + k + text.newlines = line + text.newlines + k := by omega
    rw [event?, event?, hline]
    rfl
  | unexpected =>
    rw [event?, event?, Option.map_map]
    rfl
  | _ => rfl

/-- Pieces that start some lines further on amount to the same, some lines further on. -/
theorem filterMap_place_add (ps : List Piece) :
    (place (line + k) ps).filterMap Placed.token? =
        ((place line ps).filterMap Placed.token?).map (Token.moved k) ∧
      (place (line + k) ps).filterMap Placed.event? =
        ((place line ps).filterMap Placed.event?).map (Event.moved k) := by
  induction ps generalizing line with
  | nil => exact ⟨rfl, rfl⟩
  | cons p ps ih =>
    have hline : line + k + p.text.newlines = line + p.text.newlines + k := by omega
    obtain ⟨htokens, hevents⟩ := ih (line + p.text.newlines)
    simp only [place, filterMap_cons_toList, List.map_append, Placed.token?, Placed.event?,
      Placed.endLine, hline, htokens, hevents, Piece.token?_add, Piece.event?_add,
      Option.toList_map, and_self]

theorem startingOn_add (source : Text) :
    Scan.startingOn (line + k) source = (Scan.startingOn line source).moved k := by
  obtain ⟨htokens, hevents⟩ := filterMap_place_add line k (pieces source)
  have hline : line + k + source.newlines = line + source.newlines + k := by omega
  simp only [Scan.startingOn, Scan.moved, htokens, hevents, hline, List.map_append, Token.endOn,
    Token.moved, List.map_cons, List.map_nil]

/-- **A scan depends on the line on which it starts in nothing but the lines.** -/
theorem startingOn_eq_moved (source : Text) :
    Scan.startingOn line source = (Scan.ofSource source).moved (line - 1) := by
  have h := startingOn_add 1 (line - 1) source
  rwa [show 1 + (line - 1) = line by omega] at h

end Moved

/-! ## 2. Resuming -/

theorem Scanner.line_finish (s : Scanner) : s.finish.1.line = s.line + s.rest.newlines := by
  rw [finish_fst, line_readAll, flatten_text_pieces]

namespace Station

/-- What finishing makes of a station: all tokens, and all that its collector holds. -/
def outcome (st : Station) : List Token × List Diagnostic :=
  let scan := Scan.startingOn st.scanner.line st.scanner.rest
  (st.scanner.tokens ++ scan.tokens, st.collector.diagnostics ++ scan.diagnostics)

theorem perform_finish {st : Station} (hf : st.scanner.finished = false) :
    (st.perform .finish).2 = .ok (.tokens st.outcome.1) ∧
      (st.perform .finish).1.scanner.tokens = st.outcome.1 ∧
      (st.perform .finish).1.collector.diagnostics = st.outcome.2 ∧
      (st.perform .finish).1.scanner.line = st.scanner.line + st.scanner.rest.newlines := by
  rw [perform, hf]
  refine ⟨?_, ?_, ?_, ?_⟩
  · exact congrArg (fun ts => Except.ok (Answer.tokens ts)) st.scanner.tokens_finish
  · exact st.scanner.tokens_finish
  · exact congrArg (fun es => st.collector.diagnostics ++ diagnosticsOf es) st.scanner.finish_snd
  · exact st.scanner.line_finish

section Steps

variable (st : Station)

/-- Reading a piece first leaves less to be read, and nothing else is different. -/
theorem outcome_step : (st.perform .step).1.outcome = st.outcome := by
  rcases st.perform_step_cases with ⟨-, h⟩ | ⟨p, rest, hrest, hp, h⟩
  · rw [h]
    rfl
  · obtain ⟨htokens, hevents⟩ := startingOn_append st.scanner.line hp
    have hdiagnostics := congrArg diagnosticsOf hevents
    rw [diagnosticsOf_append] at hdiagnostics
    rw [h, outcome, outcome, hrest, Scan.diagnostics, Scan.diagnostics, htokens, hdiagnostics]
    simp only [after, Scanner.rest_read hrest, Scanner.tokens_read, Scanner.line_read,
      Collector.diagnostics_report, List.append_assoc]

theorem finished_step : (st.perform .step).1.scanner.finished = st.scanner.finished := by
  rcases st.perform_step_cases with ⟨-, h⟩ | ⟨p, rest, -, -, h⟩ <;> (rw [h]; rfl)

theorem outcome_run_step (n : Nat) : (st.run (List.replicate n .step)).outcome = st.outcome := by
  induction n generalizing st with
  | zero => rfl
  | succ n ih => exact (ih (st.perform .step).1).trans (outcome_step st)

theorem finished_run_step (n : Nat) :
    (st.run (List.replicate n .step)).scanner.finished = st.scanner.finished := by
  induction n generalizing st with
  | zero => rfl
  | succ n ih => exact (ih (st.perform .step).1).trans (finished_step st)

end Steps

/-- **A scanner that is resumed goes on as a new one.**  Whatever was asked of a scanner before,
if it has not finished, then finishing it adds the tokens and the diagnostics of a scan of what
was not read yet, on the line reached, and counts the newlines that are left.  So reading any
number of pieces one by one and finishing then gives what a scan of the source gives. -/
theorem finish_resumes (source : Text) (held : Collector) :
    (∀ actions : List Action,
      let st := (ofSource source held).run actions
      let left : Text := source.drop st.scanner.position
      let scan := Scan.ofSource left
      let k := st.scanner.line - 1
      let tokens := st.scanner.tokens ++ scan.tokens.map (Token.moved k)
      st.scanner.finished = false →
        (st.perform .finish).2 = .ok (.tokens tokens) ∧
          (st.perform .finish).1.scanner.tokens = tokens ∧
          (st.perform .finish).1.collector.diagnostics =
            st.collector.diagnostics ++ scan.diagnostics.map (Diagnostic.moved k) ∧
          (st.perform .finish).1.scanner.line = st.scanner.line + left.newlines) ∧
      ∀ n : Nat,
        let st := (ofSource source held).run (List.replicate n .step)
        (st.perform .finish).2 = .ok (.tokens (Scan.ofSource source).tokens) ∧
          (st.perform .finish).1.collector.diagnostics =
            held.diagnostics ++ (Scan.ofSource source).diagnostics := by
  constructor
  · intro actions st left scan k tokens hf
    have hleft : st.scanner.rest = left := by
      rw [Scanner.rest, source_run]
      rfl
    have houtcome : st.outcome =
        (tokens, st.collector.diagnostics ++ scan.diagnostics.map (Diagnostic.moved k)) := by
      rw [outcome, hleft, startingOn_eq_moved, Scan.diagnostics_moved]
      rfl
    have hfinish := perform_finish hf
    rw [houtcome, hleft] at hfinish
    exact hfinish
  · intro n st
    have hf : st.scanner.finished = false := finished_run_step _ n
    have houtcome : st.outcome =
        ((Scan.ofSource source).tokens, held.diagnostics ++ (Scan.ofSource source).diagnostics) :=
      outcome_run_step _ n
    obtain ⟨hanswer, -, hdiagnostics, -⟩ := perform_finish hf
    rw [houtcome] at hanswer hdiagnostics
    exact ⟨hanswer, hdiagnostics⟩

/-- A scanner that stands inside a number, behind a string that ends on the second line. -/
theorem finish_resumes_inside_number :
    let st := (ofSource "\"\n\"12 #".toList .empty).run [.step, .skip]
    st.scanner.finished = false ∧
      (st.perform .finish).2 = .ok (.tokens [
        ⟨.string, "\"\n\"".toList, some (.text ['\n']), 2⟩,
        ⟨.number, ['2'], some (.number (Decimal.ofNumeral ['2']).round), 2⟩, Token.endOn 2]) ∧
      (st.perform .finish).1.collector.diagnostics = [.ofFault 2 (.unexpected '#')] := by
  intro st
  have hf : st.scanner.finished = false := by decide +kernel
  obtain ⟨hanswer, -, hdiagnostics, -⟩ :=
    (finish_resumes "\"\n\"12 #".toList .empty).1 [.step, .skip] hf
  refine ⟨hf, ?_, ?_⟩
  · refine hanswer.trans ?_
    decide +kernel
  · refine hdiagnostics.trans ?_
    decide +kernel

end Station

/-! ## 3. Two texts with a newline between them -/

/-- The event tells that the source ended inside a string or inside a block comment. -/
def Event.isOpenEnd : Event → Bool
  | neverClosed _ => true
  | reported d => d.message = Fault.unterminatedString.message
  | _ => false

/-- The source ended neither inside a string nor inside a block comment. -/
def Scan.Closed (s : Scan) : Prop := ∀ e ∈ s.events, e.isOpenEnd = false

instance (s : Scan) : Decidable s.Closed :=
  inferInstanceAs (Decidable (∀ e ∈ s.events, e.isOpenEnd = false))

namespace Piece

/-- The piece goes to the end of the source because nothing closes it. -/
def isOpen (p : Piece) : Bool := p.role = .openString || p.role = .openComment

theorem isOpenEnd_of_isOpen {p : Piece} (h : p.isOpen = true) (line : Int) :
    ∃ e, p.event? line = some e ∧ e.isOpenEnd = true := by
  obtain ⟨role, text⟩ := p
  rcases Bool.or_eq_true_iff.mp h with h | h
  · obtain rfl : role = .openString := of_decide_eq_true h
    exact ⟨_, rfl, by simp [Event.isOpenEnd, Diagnostic.ofFault]⟩
  · obtain rfl : role = .openComment := of_decide_eq_true h
    exact ⟨_, rfl, rfl⟩

end Piece

/-- No piece of a source is open if the scan does not tell so. -/
theorem isOpen_of_closed {source : Text} (h : (Scan.ofSource source).Closed) :
    ∀ p ∈ pieces source, p.isOpen = false := by
  intro p hp
  rw [Bool.eq_false_iff]
  intro hopen
  rw [← map_piece_place 1 (pieces source)] at hp
  obtain ⟨x, hx, rfl⟩ := List.mem_map.mp hp
  obtain ⟨e, he, hend⟩ := Piece.isOpenEnd_of_isOpen hopen x.line
  have hclosed := h e (List.mem_filterMap.mpr ⟨x, hx, he⟩)
  rw [hend] at hclosed
  exact absurd hclosed (by simp)

section Newline

variable {p : Piece} {after : Text}

theorem StopsAt.append_newline {f : Char → Bool} (h : StopsAt f after) (hf : f '\n' = false)
    (t : Text) : StopsAt f (after ++ '\n' :: t) := by
  cases after with
  | nil => exact stopsAt_cons.mpr hf
  | cons c after => exact stopsAt_cons.mpr (stopsAt_cons.mp h)

theorem Piece.isFraction_append_newline (h : isFraction after = false) (t : Text) :
    isFraction (after ++ '\n' :: t) = false := by
  cases after with
  | nil => rfl
  | cons c after =>
    rw [List.cons_append, isFraction_cons_eq_false]
    exact fun hc => (isFraction_cons_eq_false.mp h hc).append_newline (by decide) t

/-- **A newline is like the end of the source** to every piece that is not open. -/
theorem Piece.Fits.append_newline (h : p.Fits after) (hopen : p.isOpen = false) (t : Text) :
    p.Fits (after ++ '\n' :: t) := by
  have hnewline : p.role.extendedBy '\n' = false := by
    obtain ⟨role, text⟩ := p
    cases role with
    | operator o => cases o <;> rfl
    | openString | openComment => exact absurd hopen (by simp [isOpen])
    | _ => rfl
  exact ⟨h.1, h.2.imp (·.append_newline hnewline t) (isFraction_append_newline · t)⟩

theorem Piece.Proper.append_newline {ps qs : List Piece} (hps : Proper ps)
    (hopen : ∀ p ∈ ps, p.isOpen = false) (hqs : Proper qs) :
    Proper (ps ++ ⟨.blank, ['\n']⟩ :: qs) := by
  induction ps with
  | nil => exact ⟨⟨.blank rfl, trivial⟩, hqs⟩
  | cons p ps ih =>
    refine ⟨?_, ih hps.2 fun q hq => hopen q (List.mem_cons_of_mem _ hq)⟩
    have h := hps.1.append_newline (hopen p List.mem_cons_self) (qs.map text).flatten
    simpa using h

end Newline

/-- The pieces of two texts with a newline between them. -/
theorem pieces_append_newline {a : Text} (ha : ∀ p ∈ pieces a, p.isOpen = false) (b : Text) :
    pieces (a ++ '\n' :: b) = pieces a ++ ⟨.blank, ['\n']⟩ :: pieces b := by
  refine pieces_eq_iff.mpr ⟨?_, (proper_pieces a).append_newline ha (proper_pieces b)⟩
  simp [flatten_text_pieces]

theorem startingOn_append_newline {a : Text} (ha : ∀ p ∈ pieces a, p.isOpen = false) (b : Text)
    (line : Int) :
    (Scan.startingOn line (a ++ '\n' :: b)).tokens =
        (Scan.startingOn line a).tokens.dropLast ++
          (Scan.startingOn (line + a.newlines + 1) b).tokens ∧
      (Scan.startingOn line (a ++ '\n' :: b)).events =
        (Scan.startingOn line a).events ++
          (Scan.startingOn (line + a.newlines + 1) b).events := by
  have hlines : line + Text.newlines (a ++ '\n' :: b) = line + a.newlines + 1 + b.newlines := by
    simp only [Text.newlines_append, Text.newlines_cons, if_true]
    omega
  have hplace : place line (pieces (a ++ '\n' :: b)) =
      place line (pieces a) ++ ⟨⟨.blank, ['\n']⟩, line + a.newlines⟩ ::
        place (line + a.newlines + 1) (pieces b) := by
    rw [pieces_append_newline ha, place_append, flatten_text_pieces]
    rfl
  constructor
  · simp only [Scan.startingOn, hplace, hlines, List.dropLast_concat, List.filterMap_append,
      filterMap_cons_toList, List.append_assoc]
    rfl
  · simp only [Scan.startingOn, hplace, List.filterMap_append, filterMap_cons_toList]
    rfl

/-- **Two texts with a newline between them** are scanned as each of them is alone, if the first
ends neither inside a string nor inside a block comment: the end token of the first is missing,
and the second stands on the lines behind it. -/
theorem scan_append_newline {a : Text} (ha : (Scan.ofSource a).Closed) (b : Text) :
    let k : Int := 1 + a.newlines
    let scan := Scan.ofSource (a ++ '\n' :: b)
    scan.tokens =
        (Scan.ofSource a).tokens.dropLast ++ (Scan.ofSource b).tokens.map (Token.moved k) ∧
      scan.diagnostics =
        (Scan.ofSource a).diagnostics ++
          (Scan.ofSource b).diagnostics.map (Diagnostic.moved k) := by
  intro k scan
  obtain ⟨htokens, hevents⟩ := startingOn_append_newline (isOpen_of_closed ha) b 1
  have hmoved : Scan.startingOn (1 + a.newlines + 1) b = (Scan.ofSource b).moved k := by
    rw [startingOn_eq_moved, Int.add_sub_cancel]
  rw [hmoved] at htokens hevents
  refine ⟨htokens, ?_⟩
  rw [← Scan.diagnostics_moved]
  exact (congrArg diagnosticsOf hevents).trans (diagnosticsOf_append _ _)

/-- Two slashes make no comment across the newline, and a point no fraction. -/
theorem scan_append_newline_slash :
    (Scan.ofSource "5.\n/".toList).Closed ∧
      let scan := Scan.ofSource "5.\n/\n/2#".toList
      scan.tokens = [
          ⟨.number, ['5'], some (.number (Decimal.ofNumeral ['5']).round), 1⟩,
          ⟨.operator .dot, ['.'], none, 1⟩, ⟨.operator .slash, ['/'], none, 2⟩,
          ⟨.operator .slash, ['/'], none, 3⟩,
          ⟨.number, ['2'], some (.number (Decimal.ofNumeral ['2']).round), 3⟩, Token.endOn 3] ∧
        scan.diagnostics = [.ofFault 3 (.unexpected '#')] := by
  have hclosed : (Scan.ofSource "5.\n/".toList).Closed := by decide +kernel
  obtain ⟨htokens, hdiagnostics⟩ := scan_append_newline hclosed "/2#".toList
  refine ⟨hclosed, htokens.trans ?_, hdiagnostics.trans ?_⟩
  · decide +kernel
  · decide +kernel

end Loxeme
