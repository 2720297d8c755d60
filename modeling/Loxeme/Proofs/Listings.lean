/-
# Listings told back

A listing is text with nothing to mark where a string begins or how long it is, and a string may
hold any line that could stand for other tokens.  Still no two lists of tokens are shown alike:
the name of the kind says how to read the lexeme, the lexeme of a string ends at its second quote,
and from there on as many characters as it held are its value.

* `outputOf_listing`, `errorsOf_listing`: the two streams of a listing.
* `Token.Legible` is what the tokens of a scan are like, `Token.line_append_inj` says that one
  such token can be told from the front of what is shown, and `content_eq_of_shown` that all can.
* `lines_shown`: one line is shown for each diagnostic.
* `Listing.streams_tell` puts these together for two sources.
-/
import Loxeme.Listing
import Loxeme.Text.Newlines
import Loxeme.Proofs.Messages
import Loxeme.Proofs.RoundTrip

namespace Loxeme

/-! ## 1. The streams of a listing -/

section Streams

variable (source : Text) (held : Collector)

/-- What is shown for tokens. -/
def Token.shown (ts : List Token) : Text := ts.flatMap fun t => Text.line t.display

/-- What is shown for diagnostics. -/
def Diagnostic.shown (ds : List Diagnostic) : Text := ds.flatMap fun d => Text.line d.display

private theorem flatMap_nothing {α : Type} (l : List α) :
    l.flatMap (fun _ => ([] : Text)) = [] := by
  rw [List.flatMap_eq_nil_iff]
  intro x _
  rfl

/-- **The output** shows the tokens. -/
theorem outputOf_listing : outputOf (Listing.ofSource source held).writes =
    Token.shown (Scan.ofSource source).tokens := by
  simp only [Listing.ofSource, outputOf, List.flatMap_append, List.flatMap_map,
    Listing.tokenLine, Listing.diagnosticLine, flatMap_nothing, List.nil_append, List.append_nil]
  rfl

/-- **The error stream** shows the diagnostics, those from before included. -/
theorem errorsOf_listing : errorsOf (Listing.ofSource source held).writes =
    Diagnostic.shown (held.report (Scan.ofSource source).diagnostics).diagnostics := by
  simp only [Listing.ofSource, errorsOf, List.flatMap_append, List.flatMap_map,
    Listing.tokenLine, Listing.diagnosticLine, flatMap_nothing, List.nil_append]
  rfl

end Streams

/-! ## 2. The line of a token -/

namespace Kind

theorem name_injective {k k' : Kind} (h : k.name = k'.name) : k = k' :=
  Except.ok.inj (by rw [← ofName_name k, h, ofName_name])

theorem space_notMem_name (k : Kind) : ' ' ∉ k.name := by
  have h : ∀ k ∈ all, ' ' ∉ k.name := by decide +kernel
  exact h k (mem_all k)

end Kind

namespace Token

/-- A token that can be told from the line shown for it: only a string may have a space in its
lexeme, and the value follows from kind and lexeme. -/
inductive Legible : Token → Prop
  | string {b : Text} (hb : '"' ∉ b) (line : Int) :
      Legible ⟨.string, '"' :: b ++ ['"'], some (.text b), line⟩
  | number {n : Text} (hn : ' ' ∉ n) (line : Int) :
      Legible ⟨.number, n, some (.number (Decimal.ofNumeral n).round), line⟩
  | bare {k : Kind} {w : Text} (hstring : k ≠ .string) (hnumber : k ≠ .number) (hw : ' ' ∉ w)
      (line : Int) : Legible ⟨k, w, none, line⟩

theorem legible_of_wellFormed {t : Token} (h : t.WellFormed) : t.Legible := by
  have hdigits : ∀ {ds : Text}, (∀ d ∈ ds, d.isDigit = true) → ' ' ∉ ds :=
    fun hds hspace => absurd (hds ' ' hspace) (by decide)
  cases h with
  | operator o line =>
    exact .bare (by simp) (by simp) (by cases o <;> decide) line
  | keyword k line =>
    exact .bare (by simp) (by simp) (by cases k <;> decide) line
  | identifier hc ht hk line =>
    refine .bare (by simp) (by simp) ?_ line
    intro hspace
    rcases List.mem_cons.mp hspace with rfl | hspace
    · exact absurd hc (by decide)
    · exact absurd (ht ' ' hspace) (by decide)
  | string hb line => exact .string hb line
  | whole hne hds line => exact .number (hdigits hds) line
  | fraction hne hds hnf hfs line =>
    refine .number ?_ line
    intro hspace
    rcases List.mem_append.mp hspace with hspace | hspace
    · exact hdigits hds hspace
    · rcases List.mem_cons.mp hspace with hspace | hspace
      · exact absurd hspace (by decide)
      · exact hdigits hfs hspace

/-- The tokens of a scan are legible, the end token among them. -/
theorem legible_of_mem {source : Text} {t : Token} (h : t ∈ (Scan.ofSource source).tokens) :
    t.Legible := by
  obtain ⟨line, hend⟩ := tokens_eq_dropLast_append source
  rw [hend] at h
  rcases List.mem_append.mp h with h | h
  · exact legible_of_wellFormed (wellFormed_of_mem h)
  · rw [List.mem_singleton.mp h]
    exact .bare (by simp) (by simp) (by simp) line

/-- The value as it is shown. -/
def shownLiteral (t : Token) : Text := (t.literal.map Literal.display).getD "nil".toList

theorem line_display_append (t : Token) (rest : Text) : Text.line t.display ++ rest =
    t.kind.name ++ ' ' :: (t.lexeme ++ ' ' :: (t.shownLiteral ++ '\n' :: rest)) := by
  simp [display, Text.unwords, Text.line, shownLiteral, List.intercalate]

/-- **A token can be told from the front of what is shown**, whatever comes behind it. -/
theorem line_append_inj {t t' : Token} {rest rest' : Text} (ht : t.Legible) (ht' : t'.Legible)
    (h : Text.line t.display ++ rest = Text.line t'.display ++ rest') :
    t.content = t'.content ∧ rest = rest' := by
  rw [line_display_append, line_display_append] at h
  obtain ⟨hname, hbody⟩ :=
    Text.append_cons_inj t.kind.space_notMem_name t'.kind.space_notMem_name h
  have hkind : t.kind = t'.kind := Kind.name_injective hname
  -- without a space in the lexemes these end at the next space
  have hplain : ' ' ∉ t.lexeme → ' ' ∉ t'.lexeme → t.lexeme = t'.lexeme ∧
      t.shownLiteral ++ '\n' :: rest = t'.shownLiteral ++ '\n' :: rest' :=
    fun hw hw' => Text.append_cons_inj hw hw' hbody
  cases ht with
  | @string b hb line =>
    cases ht' with
    | @string b' hb' line' =>
      -- the second quote ends the lexeme, and the value is as long as what stood between them
      have hquoted : b ++ '"' :: (' ' :: (b ++ '\n' :: rest)) =
          b' ++ '"' :: (' ' :: (b' ++ '\n' :: rest')) := by
        simpa [shownLiteral, Literal.display] using hbody
      obtain ⟨rfl, hvalue⟩ := Text.append_cons_inj hb hb' hquoted
      have hrest := List.append_cancel_left (List.cons.inj hvalue).2
      exact ⟨rfl, (List.cons.inj hrest).2⟩
    | number => cases hkind
    | bare hstring' => exact absurd hkind.symm hstring'
  | @number n hn line =>
    cases ht' with
    | string => cases hkind
    | @number n' hn' line' =>
      obtain ⟨hlexeme, hrest⟩ := hplain hn hn'
      obtain rfl : n = n' := hlexeme
      exact ⟨rfl, (List.cons.inj (List.append_cancel_left hrest)).2⟩
    | bare _ hnumber' => exact absurd hkind.symm hnumber'
  | @bare k w hstring hnumber hw line =>
    cases ht' with
    | string => exact absurd hkind hstring
    | number => exact absurd hkind hnumber
    | @bare k' w' _ _ hw' line' =>
      obtain ⟨hlexeme, hrest⟩ := hplain hw hw'
      obtain rfl : k = k' := hkind
      obtain rfl : w = w' := hlexeme
      exact ⟨rfl, (List.cons.inj (List.append_cancel_left hrest)).2⟩

/-- **The tokens can be told from what is shown for them.** -/
theorem content_eq_of_shown {ts ts' : List Token} (hts : ∀ t ∈ ts, t.Legible)
    (hts' : ∀ t ∈ ts', t.Legible) (h : shown ts = shown ts') :
    ts.map content = ts'.map content := by
  have hcons : ∀ (t : Token) (ts : List Token),
      shown (t :: ts) = Text.line t.display ++ shown ts := fun t ts => List.flatMap_cons
  have hne : ∀ (t : Token) (ts : List Token), shown (t :: ts) ≠ shown [] := by
    intro t ts hnil
    rw [hcons, line_display_append] at hnil
    exact absurd hnil (by simp [shown])
  induction ts generalizing ts' with
  | nil =>
    cases ts' with
    | nil => rfl
    | cons t' ts' => exact absurd h.symm (hne t' ts')
  | cons t ts ih =>
    cases ts' with
    | nil => exact absurd h (hne t ts)
    | cons t' ts' =>
      rw [hcons, hcons] at h
      obtain ⟨hcontent, hrest⟩ :=
        line_append_inj (hts t List.mem_cons_self) (hts' t' List.mem_cons_self) h
      have htail := ih (fun u hu => hts u (List.mem_cons_of_mem _ hu))
        (fun u hu => hts' u (List.mem_cons_of_mem _ hu)) hrest
      rw [List.map_cons, List.map_cons, hcontent, htail]

end Token

/-! ## 3. The lines of diagnostics -/

/-- The messages of a scan are those of faults, so none takes more than one line. -/
theorem newline_notMem_of_mem {source : Text} {d : Diagnostic}
    (h : d ∈ (Scan.ofSource source).diagnostics) : '\n' ∉ d.message := by
  rw [diagnostics_ofSource] at h
  obtain ⟨u, hu, hd⟩ := List.mem_flatMap.mp h
  rcases diagnostic_line hu hd with ⟨c, -, -, rfl⟩ | ⟨-, rfl⟩
  · exact Fault.newline_notMem_message (.unexpected c)
  · exact Fault.newline_notMem_message .unterminatedString

namespace Diagnostic

theorem shown_eq_nil_iff {ds : List Diagnostic} : shown ds = [] ↔ ds = [] := by
  cases ds with
  | nil => simp [shown]
  | cons d ds => simp [shown, Text.line]

/-- **One line is shown for each diagnostic.** -/
theorem lines_shown {ds : List Diagnostic} (h : ∀ d ∈ ds, '\n' ∉ d.message) :
    (shown ds).lines = ds.map display := by
  induction ds with
  | nil => rfl
  | cons d ds ih =>
    have hshown : shown (d :: ds) = d.display ++ '\n' :: shown ds := by
      simp [shown, Text.line]
    rw [hshown, Text.lines_append_newline (newline_notMem_display (h d List.mem_cons_self)),
      ih (fun e he => h e (List.mem_cons_of_mem _ he)), List.map_cons]

/-- **The diagnostics can be told from what is shown for them.** -/
theorem eq_of_shown {ds ds' : List Diagnostic} (hds : ∀ d ∈ ds, '\n' ∉ d.message)
    (hds' : ∀ d ∈ ds', '\n' ∉ d.message) (h : shown ds = shown ds') : ds = ds' := by
  have hlines : ds.map display = ds'.map display := by
    rw [← lines_shown hds, h, lines_shown hds']
  exact List.map_injective_iff.mpr (fun _ _ => display_injective) hlines

end Diagnostic

/-! ## 4. Two sources -/

/-- **What is shown for a source tells what came of it.**  Two sources with the same output have
the same tokens but for their lines, and two with the same error stream the same diagnostics.  The
error stream has one line for each diagnostic, no message takes more than that, and no two stray
characters are reported in the same words. -/
theorem Listing.streams_tell (source source' : Text) :
    let a := Listing.ofSource source .empty
    let b := Listing.ofSource source' .empty
    (outputOf a.writes = outputOf b.writes →
        a.tokens.map Token.content = b.tokens.map Token.content) ∧
      (errorsOf a.writes = errorsOf b.writes →
        a.collector.diagnostics = b.collector.diagnostics) ∧
      (errorsOf a.writes).lines = a.collector.diagnostics.map Diagnostic.display ∧
      (∀ d ∈ a.collector.diagnostics, '\n' ∉ d.message) ∧
      ∀ c c' : Char, (Fault.unexpected c).message = (Fault.unexpected c').message → c = c' := by
  intro a b
  have hmessages : ∀ s, ∀ d ∈ (Listing.ofSource s .empty).collector.diagnostics, '\n' ∉ d.message :=
    fun _ _ hd => newline_notMem_of_mem hd
  have herrors : ∀ s, errorsOf (Listing.ofSource s .empty).writes =
      Diagnostic.shown (Listing.ofSource s .empty).collector.diagnostics :=
    fun s => errorsOf_listing s .empty
  refine ⟨?_, ?_, ?_, hmessages source, fun _ _ => Fault.message_unexpected_injective⟩
  · intro h
    rw [outputOf_listing, outputOf_listing] at h
    exact Token.content_eq_of_shown (fun _ => Token.legible_of_mem)
      (fun _ => Token.legible_of_mem) h
  · intro h
    rw [herrors, herrors] at h
    exact Diagnostic.eq_of_shown (hmessages source) (hmessages source') h
  · rw [herrors]
    exact Diagnostic.lines_shown (hmessages source)

/-- A stray character and a string that holds what is shown for an end token, with and without a
line comment between them: the tokens differ in their lines alone. -/
theorem Listing.streams_tell_apart_from_lines :
    let a := Listing.ofSource "#\"b\nEOF  nil\n\"".toList .empty
    let b := Listing.ofSource "# // \"\n\"b\nEOF  nil\n\"".toList .empty
    outputOf a.writes = outputOf b.writes ∧ errorsOf a.writes = errorsOf b.writes ∧
      a.tokens ≠ b.tokens ∧ a.tokens.map Token.content = b.tokens.map Token.content ∧
      a.collector.diagnostics = b.collector.diagnostics ∧
      (errorsOf a.writes).lines = ["[line 1] Error: Unexpected character '#'.".toList] := by
  intro a b
  obtain ⟨htokens, hdiagnostics, hlines, -, -⟩ := Listing.streams_tell
    "#\"b\nEOF  nil\n\"".toList "# // \"\n\"b\nEOF  nil\n\"".toList
  have houtput : outputOf a.writes = outputOf b.writes := by decide +kernel
  have herrors : errorsOf a.writes = errorsOf b.writes := by decide +kernel
  refine ⟨houtput, herrors, by decide +kernel, htokens houtput, hdiagnostics herrors,
    hlines.trans ?_⟩
  decide +kernel

end Loxeme
