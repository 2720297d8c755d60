/-
# The log

The log of a scan is all that is ever said about a comment that is not closed, since that is no
error.  It says what the steps of the scan noticed, one after the other, and closes with a summary;
no other record is in it, and none takes more than one line.

* `UnitClass.Notes` is what a unit leaves in the log, and `notes_of_mem_trace` that every step of a
  scan leaves just that.
* `Tiles.eq_concat`: only one step can go to the end of a source, and it is the last one.
* `isOpenComment_of_warning`, `events_of_isOpenComment`: a warning is a comment that goes there.
* `scan_log_exact` puts these together for a source.
-/
import Loxeme.Proofs.LongestMatch
import Loxeme.Proofs.Listings

namespace Loxeme

/-! ## 1. Records -/

/-- A record of the log: how much it matters, which part of the program it comes from, and its
wording. -/
structure LogEntry where
  level : Text
  origin : Text
  message : Text
  deriving DecidableEq, Repr

theorem Level.name_ne : debug.name ≠ warning.name := by decide

/-- What is logged for an event. -/
def Event.entry (e : Event) : LogEntry := ⟨e.level.name, e.origin, e.message⟩

/-- The log of a scan for a collector that is empty. -/
def logged (source : Text) : List LogEntry :=
  ((Scan.ofSource source).log Collector.empty.size).map Event.entry

namespace LogEntry

/-- The record of a block comment that was skipped. -/
def skipped (comment : Text) : LogEntry :=
  ⟨"DEBUG".toList, "lox.scanner".toList, "skipped block comment ".toList ++ comment.quoted⟩

/-- The record of a diagnostic. -/
def reported (d : Diagnostic) : LogEntry :=
  ⟨"DEBUG".toList, "lox.errors".toList, "reported ".toList ++ d.display⟩

/-- The warning about a block comment, which started on a line and is not closed. -/
def neverClosed (line : Int) : LogEntry :=
  ⟨"WARNING".toList, "lox.scanner".toList,
    "block comment opened on line ".toList ++ Text.ofInt line ++ " is never closed".toList⟩

/-- The record that closes the log of a scan. -/
def summary (tokens : Nat) (lines : Int) (errors : Nat) : LogEntry :=
  ⟨"DEBUG".toList, "lox.scanner".toList,
    "scanned ".toList ++ Text.ofNat tokens ++ " tokens over ".toList ++ Text.ofInt lines ++
      " lines (".toList ++ Text.ofNat errors ++ " errors)".toList⟩

/-- The wording begins with a word. -/
def startsWith (word : Text) (e : LogEntry) : Bool := word.isPrefixOf e.message

end LogEntry

namespace Span

/-- What a step leaves in the log. -/
def entries (u : Span) : List LogEntry := u.events.map Event.entry

/-- The step goes to the end of the source in a block comment that is not closed. -/
def IsOpenComment (u : Span) (source : Text) : Prop :=
  u.stop = source.length ∧ ∃ b, ¬ ['*', '/'] <:+: b ∧ u.textIn source = '/' :: '*' :: b

end Span

/-- `k.Notes source u es`: what a unit `u` of class `k` leaves in the log.  A block comment is quoted
as a whole if it is closed, and is warned about if it is not; of any other unit the log has what is
reported about it. -/
inductive UnitClass.Notes (source : Text) (u : Span) : UnitClass → List LogEntry → Prop
  | closedComment {b : Text} (hb : ¬ ['*', '/'] <:+: b ++ ['*'])
      (htext : u.textIn source = '/' :: '*' :: (b ++ ['*', '/'])) :
      Notes source u .blockComment [.skipped (u.textIn source)]
  | openComment (hopen : u.IsOpenComment source) :
      Notes source u .blockComment [.neverClosed (source.lineAt u.start)]
  | other {k : UnitClass} (hk : k ≠ .blockComment) :
      Notes source u k (u.diagnostics.map .reported)

/-! ## 2. What a step leaves -/

section Steps

variable {source : Text} {u : Span} {e : LogEntry}

/-- **Every step leaves what its unit does.** -/
theorem notes_of_mem_trace (hu : u ∈ (Scanner.ofSource source).trace) :
    ∃ k : UnitClass, LongestUnit source u k ∧ k.Notes source u u.entries := by
  obtain ⟨before, p, after, rfl, hp, rfl⟩ := mem_trace hu
  refine ⟨p.role.unitClass, longestUnit_of_fits hp, ?_⟩
  let u := Span.ofPiece before.length (1 + before.newlines) p
  have htext : u.textIn (before ++ p.text ++ after) = p.text := Span.textIn_ofPiece
  have hline : Text.lineAt (before ++ p.text ++ after) u.start = 1 + before.newlines :=
    Span.lineAt_start_ofPiece
  obtain ⟨hshape, hstops⟩ := hp
  cases hshape with
  | @blockComment b hb =>
    have h := UnitClass.Notes.closedComment hb htext
    rwa [htext] at h
  | @openComment b hb =>
    obtain rfl : after = [] := hstops
    have h := UnitClass.Notes.openComment ⟨by simp [u, Span.ofPiece], b, hb, htext⟩
    rwa [hline] at h
  | _ => exact .other (by simp [Role.unitClass])

/-- What can be in the log: a comment that was skipped, a diagnostic, or a warning. -/
theorem UnitClass.Notes.mem_cases {k : UnitClass} {es : List LogEntry} (h : k.Notes source u es)
    (he : e ∈ es) : (∃ comment, e = .skipped comment) ∨ (∃ d ∈ u.diagnostics, e = .reported d) ∨
      (u.IsOpenComment source ∧ e = .neverClosed (source.lineAt u.start)) := by
  cases h with
  | closedComment _ _ => exact Or.inl ⟨_, List.mem_singleton.mp he⟩
  | openComment hopen => exact Or.inr (Or.inr ⟨hopen, List.mem_singleton.mp he⟩)
  | other _ =>
    obtain ⟨d, hd, rfl⟩ := List.mem_map.mp he
    exact Or.inr (Or.inl ⟨d, hd, rfl⟩)

/-- **A warning is a comment that is not closed.** -/
theorem isOpenComment_of_warning (hu : u ∈ (Scanner.ofSource source).trace) (he : e ∈ u.entries)
    (hlevel : e.level = "WARNING".toList) : u.IsOpenComment source := by
  obtain ⟨k, -, hnotes⟩ := notes_of_mem_trace hu
  rcases hnotes.mem_cases he with ⟨comment, rfl⟩ | ⟨d, -, rfl⟩ | ⟨hopen, -⟩
  · exact absurd hlevel Level.name_ne
  · exact absurd hlevel Level.name_ne
  · exact hopen

/-- A comment that is not closed is warned about, and that is all. -/
theorem events_of_isOpenComment (hu : u ∈ (Scanner.ofSource source).trace)
    (h : u.IsOpenComment source) : u.events = [.neverClosed (source.lineAt u.start)] := by
  obtain ⟨before, p, after, rfl, hp, rfl⟩ := mem_trace hu
  obtain ⟨-, b, hb, htext⟩ := h
  rw [Span.textIn_ofPiece] at htext
  obtain rfl : p = ⟨.openComment, '/' :: '*' :: b⟩ := hp.1.eq_of_text (.openComment hb) htext
  rw [Span.lineAt_start_ofPiece]
  rfl

theorem entries_of_isOpenComment (hu : u ∈ (Scanner.ofSource source).trace)
    (h : u.IsOpenComment source) : u.entries = [.neverClosed (source.lineAt u.start)] :=
  congrArg (List.map Event.entry) (events_of_isOpenComment hu h)

end Steps

/-! ## 3. The end of the source -/

section Last

variable {source : Text} {us : List Span} {u v : Span}

/-- **Only the last step goes to the end.** -/
theorem Span.Tiles.eq_concat {lo hi : Nat} (h : Tiles lo hi us) (hu : u ∈ us) (hstop : u.stop = hi) :
    ∃ vs, us = vs ++ [u] ∧ ∀ v ∈ vs, v.stop < hi := by
  obtain ⟨vs, ws, rfl⟩ := List.append_of_mem hu
  have hpairwise := List.pairwise_append.mp h.pairwise
  have hws : ws = [] := by
    rw [List.eq_nil_iff_forall_not_mem]
    intro w hw
    have hafter := (List.pairwise_cons.mp hpairwise.2.1).1 w hw
    have hbounds := h.bounds.2 w (by simp [hw])
    omega
  subst hws
  refine ⟨vs, rfl, ?_⟩
  intro v hv
  have hbefore := hpairwise.2.2 v hv u List.mem_cons_self
  have hbounds := h.bounds.2 u hu
  omega

/-- Two steps that go to the end are the same. -/
theorem Span.Tiles.eq_of_stop {lo hi : Nat} (h : Tiles lo hi us) (hu : u ∈ us) (hstop : u.stop = hi)
    (hv : v ∈ us) (hstop' : v.stop = hi) : v = u := by
  have hlast : ∀ w ∈ us, w.stop = hi → w.Covers (hi - 1) := by
    rintro w hw rfl
    have hbounds := h.bounds.2 w hw
    exact ⟨by omega, by omega⟩
  exact h.eq_of_covers hu hv (hlast u hu hstop) (hlast v hv hstop')

end Last

/-! ## 4. Wordings -/

section Wordings

variable {source : Text} {u : Span} {e : LogEntry}

/-- A record begins like that of a diagnostic exactly if it reports one. -/
theorem startsWith_reported (event : Event) :
    event.entry.startsWith "reported ".toList = event.diagnostic?.isSome := by
  cases event <;> rfl

/-- **Such records are those of the diagnostics**, in order. -/
theorem filter_reported (es : List Event) :
    (es.map Event.entry).filter (LogEntry.startsWith "reported ".toList) =
      (diagnosticsOf es).map .reported := by
  induction es with
  | nil => rfl
  | cons event es ih =>
    rw [List.map_cons, List.filter_cons, startsWith_reported, diagnosticsOf, filterMap_cons_toList,
      List.map_append, ← diagnosticsOf, ← ih]
    cases event <;> rfl

/-- No step leaves a record that begins like a summary. -/
theorem startsWith_scanned (hu : u ∈ (Scanner.ofSource source).trace) (he : e ∈ u.entries) :
    e.startsWith "scanned ".toList = false := by
  obtain ⟨k, -, hnotes⟩ := notes_of_mem_trace hu
  rcases hnotes.mem_cases he with ⟨comment, rfl⟩ | ⟨d, -, rfl⟩ | ⟨-, rfl⟩ <;> rfl

/-- **No record takes more than one line.** -/
theorem newline_notMem_entry (hu : u ∈ (Scanner.ofSource source).trace) (he : e ∈ u.entries) :
    '\n' ∉ e.message := by
  obtain ⟨k, -, hnotes⟩ := notes_of_mem_trace hu
  rcases hnotes.mem_cases he with ⟨comment, rfl⟩ | ⟨d, hd, rfl⟩ | ⟨-, rfl⟩
  · exact List.not_mem_append (by decide) (Text.newline_notMem_quoted comment)
  · have hmem : d ∈ (Scan.ofSource source).diagnostics := by
      rw [diagnostics_ofSource]
      exact List.mem_flatMap.mpr ⟨u, hu, hd⟩
    exact List.not_mem_append (by decide)
      (Diagnostic.newline_notMem_display (newline_notMem_of_mem hmem))
  · exact List.not_mem_append (List.not_mem_append (by decide)
      (Text.notMem_ofInt (by decide) rfl _)) (by decide)

theorem newline_notMem_summary (tokens errors : Nat) (lines : Int) :
    '\n' ∉ (LogEntry.summary tokens lines errors).message := by
  have hnumber : ∀ n : Int, '\n' ∉ Text.ofInt n := Text.notMem_ofInt (by decide) rfl
  refine List.not_mem_append (List.not_mem_append (List.not_mem_append (List.not_mem_append
    (List.not_mem_append (List.not_mem_append ?_ ?_) ?_) ?_) ?_) ?_) ?_
  · decide
  · exact hnumber tokens
  · decide
  · exact hnumber lines
  · decide
  · exact hnumber errors
  · decide

/-- A string is not left open where a comment is. -/
theorem message_ne_of_isOpenComment (hu : u ∈ (Scanner.ofSource source).trace)
    (hopen : u.IsOpenComment source) {d : Diagnostic} (hd : d ∈ (Scan.ofSource source).diagnostics) :
    d.message ≠ "Unterminated string.".toList := by
  rw [diagnostics_ofSource] at hd
  obtain ⟨v, hv, hdv⟩ := List.mem_flatMap.mp hd
  rcases diagnostic_line hv hdv with ⟨c, -, -, rfl⟩ | ⟨hstop, -⟩
  · exact Fault.message_unexpected_ne c
  · obtain rfl := (tiles_trace source).eq_of_stop hu hopen.1 hv hstop
    rw [Span.diagnostics, events_of_isOpenComment hv hopen] at hdv
    exact absurd hdv (by simp [diagnosticsOf, Event.diagnostic?])

end Wordings

/-! ## 5. The log of a source -/

section Logged

variable (source : Text)

/-- **The log is what the steps leave, and a summary.** -/
theorem logged_eq : logged source =
    (Scanner.ofSource source).trace.flatMap Span.entries ++
      [.summary (Scan.ofSource source).tokens.length (1 + source.newlines)
        (Scan.ofSource source).diagnostics.length] := by
  have hentries : (Scan.ofSource source).events.map Event.entry =
      (Scanner.ofSource source).trace.flatMap Span.entries := by
    rw [events_ofSource, List.map_flatMap]
    rfl
  have hheld : Collector.empty.size = 0 := rfl
  rw [logged, Scan.log, List.map_append, hentries, hheld, Nat.zero_add]
  rfl

/-- Each diagnostic is logged once, and nothing else is reported. -/
theorem filter_reported_logged :
    (logged source).filter (LogEntry.startsWith "reported ".toList) =
      (Scan.ofSource source).diagnostics.map .reported := by
  rw [logged, filter_reported, Scan.log, diagnosticsOf_append, diagnosticsOf, diagnosticsOf]
  exact congrArg (List.map _) (List.append_nil _)

/-- **There is one summary.** -/
theorem countP_scanned_logged :
    (logged source).countP (LogEntry.startsWith "scanned ".toList) = 1 := by
  have hsteps : ((Scanner.ofSource source).trace.flatMap Span.entries).countP
      (LogEntry.startsWith "scanned ".toList) = 0 := by
    rw [List.countP_eq_zero]
    intro e he
    obtain ⟨u, hu, heu⟩ := List.mem_flatMap.mp he
    exact Bool.eq_false_iff.mp (startsWith_scanned hu heu)
  rw [logged_eq, List.countP_append, hsteps]
  rfl

variable {source} {e : LogEntry} {u : Span}

theorem mem_logged (he : e ∈ logged source) :
    (∃ u ∈ (Scanner.ofSource source).trace, e ∈ u.entries) ∨
      ∃ tokens lines errors, e = .summary tokens lines errors := by
  rw [logged_eq] at he
  rcases List.mem_append.mp he with he | he
  · exact Or.inl (List.mem_flatMap.mp he)
  · exact Or.inr ⟨_, _, _, List.mem_singleton.mp he⟩

/-- **A warning in the log** is what the last step leaves. -/
theorem exists_of_warning (he : e ∈ logged source) (hlevel : e.level = "WARNING".toList) :
    ∃ u ∈ (Scanner.ofSource source).trace, u.IsOpenComment source ∧ u.entries = [e] := by
  rcases mem_logged he with ⟨u, hu, heu⟩ | ⟨tokens, lines, errors, rfl⟩
  · have hopen := isOpenComment_of_warning hu heu hlevel
    have hentries := entries_of_isOpenComment hu hopen
    rw [hentries] at heu
    rw [← List.mem_singleton.mp heu] at hentries
    exact ⟨u, hu, hopen, hentries⟩
  · exact absurd hlevel Level.name_ne

/-- Around the warning about a comment that is not closed: behind it stands one record, and no other
is a warning. -/
theorem exists_logged_eq (hu : u ∈ (Scanner.ofSource source).trace)
    (hopen : u.IsOpenComment source) :
    ∃ front last, logged source = front ++ u.entries ++ [last] ∧
      ∀ e ∈ front ++ [last], e.level = "DEBUG".toList := by
  obtain ⟨vs, hsplit, hlt⟩ := (tiles_trace source).eq_concat hu hopen.1
  have hlogged := logged_eq source
  rw [hsplit, List.flatMap_append, List.flatMap_singleton] at hlogged
  refine ⟨_, _, hlogged, ?_⟩
  intro e he
  rcases List.mem_append.mp he with he | he
  · obtain ⟨v, hv, hev⟩ := List.mem_flatMap.mp he
    have hv' : v ∈ (Scanner.ofSource source).trace := hsplit ▸ List.mem_append_left _ hv
    obtain ⟨k, -, hnotes⟩ := notes_of_mem_trace hv'
    rcases hnotes.mem_cases hev with ⟨comment, rfl⟩ | ⟨d, -, rfl⟩ | ⟨hopen', -⟩
    · rfl
    · rfl
    · -- another comment would go to the end as well
      have := hlt v hv
      have := hopen'.1
      omega
  · rw [List.mem_singleton.mp he]
    rfl

end Logged

/-- **The log tells exactly what happened.**  It is what the units of the source leave, in order,
and then one summary: the number of tokens, the number of lines, and the number of records that
report something, which are one for each diagnostic.  There is a warning exactly if the source ends
inside a block comment; it stands right before the summary, no other is in the log, and no string is
reported that is not closed.  No record takes more than one line. -/
theorem scan_log_exact (source : Text) :
    let units := (Scanner.ofSource source).trace
    let scan := Scan.ofSource source
    let log := logged source
    let reports := log.filter (LogEntry.startsWith "reported ".toList)
    Span.Tiles 0 source.length units ∧
      (∀ u ∈ units, ∃ k : UnitClass, LongestUnit source u k ∧ k.Notes source u u.entries) ∧
      log = units.flatMap Span.entries ++
        [.summary scan.tokens.length (1 + source.newlines) reports.length] ∧
      reports = scan.diagnostics.map .reported ∧
      log.countP (LogEntry.startsWith "scanned ".toList) = 1 ∧
      ((∃ e ∈ log, e.level = "WARNING".toList) ↔ ∃ u ∈ units, u.IsOpenComment source) ∧
      (∀ e ∈ log, e.level = "WARNING".toList →
        (∃ front last, log = front ++ [e] ++ [last] ∧
          ∀ e' ∈ front ++ [last], e'.level = "DEBUG".toList) ∧
        ∀ d ∈ scan.diagnostics, d.message ≠ "Unterminated string.".toList) ∧
      ∀ e ∈ log, '\n' ∉ e.message := by
  intro units scan log reports
  have hreports : reports = scan.diagnostics.map .reported := filter_reported_logged source
  refine ⟨tiles_trace source, fun u => notes_of_mem_trace, ?_, hreports,
    countP_scanned_logged source, ?_, ?_, ?_⟩
  · rw [hreports, List.length_map]
    exact logged_eq source
  · constructor
    · rintro ⟨e, he, hlevel⟩
      obtain ⟨u, hu, hopen, -⟩ := exists_of_warning he hlevel
      exact ⟨u, hu, hopen⟩
    · rintro ⟨u, hu, hopen⟩
      obtain ⟨front, last, hlogged, -⟩ := exists_logged_eq hu hopen
      rw [entries_of_isOpenComment hu hopen] at hlogged
      have hlog : log = _ := hlogged
      exact ⟨.neverClosed (source.lineAt u.start), by simp [hlog], rfl⟩
  · intro e he hlevel
    obtain ⟨u, hu, hopen, hentries⟩ := exists_of_warning he hlevel
    have haround := exists_logged_eq hu hopen
    rw [hentries] at haround
    exact ⟨haround, fun d => message_ne_of_isOpenComment hu hopen⟩
  · intro e he
    rcases mem_logged he with ⟨u, hu, heu⟩ | ⟨tokens, lines, errors, rfl⟩
    · exact newline_notMem_entry hu heu
    · exact newline_notMem_summary tokens errors lines

example : logged "/**/a#\n/*".toList =
    [.skipped "/**/".toList, .reported (.ofFault 1 (.unexpected '#')), .neverClosed 2,
      .summary 2 2 1] := by decide +kernel

end Loxeme
