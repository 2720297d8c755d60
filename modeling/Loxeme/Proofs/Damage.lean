/-
# Damaged files

Bytes that are no text are replaced when a file is read, and the replacement is then a character
like any other.  By itself it belongs to nothing and is reported; in a string or in a comment it is
part of the text, and nothing is said about it.

* `Utf8.Damage` says where a file is damaged; `exists_damage_iff`: bytes are damaged exactly if they
  are not valid.
* `textOfBytes_of_damage`, `damage_unique`: each damage is replaced at an offset of its own.
* `Text.Enclosed`: a string or a comment goes over an offset; `Text.reported_iff`: a replacement is
  reported exactly if none does.
* `onFile_damage` puts these together for a file.
-/
import Loxeme.Proofs.LongestMatch
import Loxeme.Proofs.Listings
import Loxeme.Proofs.Malformed
import Loxeme.Proofs.Files

namespace Loxeme

/-! ## 1. Where bytes are damaged -/

namespace Utf8

/-- `Damage bytes before s`: where the bytes are cut from left to right, the maximal subpart `s`
stands behind what is read as `before`, and no well-formed sequence starts there. -/
inductive Damage : List UInt8 → Text → List UInt8 → Prop
  | here {s rest : List UInt8} (hnone : NoneStarts (s ++ rest)) (hs : MaximalSubpart s rest) :
      Damage (s ++ rest) [] s
  | sequence {q rest s : List UInt8} {c : Char} {before : Text} (hq : WellFormed q c)
      (h : Damage rest before s) : Damage (q ++ rest) (c :: before) s
  | subpart {q rest s : List UInt8} {before : Text} (hnone : NoneStarts (q ++ rest))
      (hq : MaximalSubpart q rest) (h : Damage rest before s) :
      Damage (q ++ rest) (replacement :: before) s

section Damage

variable {s rest bytes : List UInt8} {before : Text} {c : Char}

theorem decode_sequence (hs : WellFormed s c) : decode (s ++ rest) = c :: decode rest :=
  decode_eq_of_cut (.sequence hs (cut_decode rest))

theorem decode_subpart (hnone : NoneStarts (s ++ rest)) (hs : MaximalSubpart s rest) :
    decode (s ++ rest) = replacement :: decode rest :=
  decode_eq_of_cut (.subpart hnone hs (cut_decode rest))

/-- **Damage is replaced** behind what is read before it. -/
theorem Damage.decode_eq (h : Damage bytes before s) :
    ∃ after, decode bytes = before ++ replacement :: after := by
  induction h with
  | here hnone hs => exact ⟨_, decode_subpart hnone hs⟩
  | sequence hq _ ih =>
    obtain ⟨after, hafter⟩ := ih
    exact ⟨after, by rw [decode_sequence hq, hafter, List.cons_append]⟩
  | subpart hnone hq _ ih =>
    obtain ⟨after, hafter⟩ := ih
    exact ⟨after, by rw [decode_subpart hnone hq, hafter, List.cons_append]⟩

theorem valid_nil : Valid [] := ⟨[], by simp, rfl⟩

/-- A well-formed sequence in front makes no difference. -/
theorem valid_sequence_iff (hs : WellFormed s c) : Valid (s ++ rest) ↔ Valid rest := by
  rw [← encode_decode_iff, ← encode_decode_iff, decode_sequence hs, encode_cons,
    ← encode_of_wellFormed hs, List.append_cancel_left_eq]

theorem not_valid_of_noneStarts (hs : s ≠ []) (h : NoneStarts (s ++ rest)) : ¬ Valid (s ++ rest) := by
  rintro ⟨ss, hss, hflatten⟩
  cases ss with
  | nil => exact hs (List.append_eq_nil_iff.mp hflatten).1
  | cons q ss =>
    obtain ⟨c, hq⟩ := hss q List.mem_cons_self
    exact h q c ⟨ss.flatten, by rw [hflatten, List.flatten_cons]⟩ hq

/-- **Bytes are damaged exactly if they are not valid.** -/
theorem exists_damage_iff : (∃ before s, Damage bytes before s) ↔ ¬ Valid bytes := by
  constructor
  · rintro ⟨before, s, h⟩
    induction h with
    | here hnone hs => exact not_valid_of_noneStarts hs.ne_nil hnone
    | sequence hq _ ih => rwa [valid_sequence_iff hq]
    | subpart hnone hq _ _ => exact not_valid_of_noneStarts hq.ne_nil hnone
  · -- along the cut of the bytes, where the first subpart is the damage
    intro h
    have hcut := cut_decode bytes
    generalize decode bytes = text at hcut
    induction hcut with
    | nil => exact absurd valid_nil h
    | sequence hs _ ih =>
      obtain ⟨before, s, hdamage⟩ := ih (by rwa [← valid_sequence_iff hs])
      exact ⟨_, s, .sequence hs hdamage⟩
    | subpart hnone hs _ _ => exact ⟨[], _, .here hnone hs⟩

/-- A text in front of damage is read before it. -/
theorem Damage.behind (t : Text) (h : Damage bytes before s) :
    Damage (encode t ++ bytes) (t ++ before) s := by
  induction t with
  | nil => exact h
  | cons c t ih =>
    rw [encode_cons, List.append_assoc]
    exact .sequence (wellFormed_encode c) ih

/-- **One subpart is damage behind a text**: the way that the bytes are cut leaves no choice. -/
theorem Damage.unique {s' : List UInt8} (h : Damage bytes before s) (h' : Damage bytes before s') :
    s = s' := by
  -- at each place both cuts take the same bytes off, and a sequence excludes a subpart
  induction h with
  | @here s rest hnone hs =>
    generalize hbytes : s ++ rest = bytes at h'
    cases h' with
    | here _ hs' => exact (hs.unique hs' hbytes).1
  | @sequence q rest s c before hq _ ih =>
    generalize hbytes : q ++ rest = bytes at h'
    cases h' with
    | sequence hq' h' =>
      rw [encode_of_wellFormed hq, encode_of_wellFormed hq'] at hbytes
      exact ih (List.append_cancel_left hbytes ▸ h')
    | subpart hnone _ _ => exact absurd hq (hnone _ _ ⟨rest, hbytes⟩)
  | @subpart q rest s before hnone hq _ ih =>
    generalize hbytes : q ++ rest = bytes at h'
    cases h' with
    | sequence hq' _ => exact absurd hq' (hnone _ _ ⟨_, hbytes.symm⟩)
    | subpart _ hq' h' => exact ih ((hq.unique hq' hbytes).2 ▸ h')

end Damage

end Utf8

/-! ## 2. Where the text has a replacement -/

/-- Other characters than line ends keep line ends apart. -/
theorem Text.unifyNewlines_append_cons {c : Char} (hr : c ≠ '\r') (hn : c ≠ '\n') (t u : Text) :
    unifyNewlines (t ++ c :: u) = unifyNewlines t ++ c :: unifyNewlines u := by
  fun_induction unifyNewlines t with
  | case1 => rw [List.nil_append, unifyNewlines_cons (Or.inl hr), if_neg hr, List.nil_append]
  | case2 rest ih => simp only [List.cons_append, unifyNewlines, ih]
  | case3 d rest hne ih =>
    have hsplit : d ≠ '\r' ∨ (rest ++ c :: u).head? ≠ some '\n' := by
      by_cases hd : d = '\r'
      · subst hd
        refine Or.inr ?_
        cases rest with
        | nil => simpa using hn
        | cons e rest =>
          intro he
          obtain rfl : e = '\n' := by simpa using he
          exact hne rest rfl rfl
      · exact Or.inl hd
    rw [List.cons_append, unifyNewlines_cons hsplit, ih, List.cons_append]

/-- A text is followed by the next character on the line that it ends on. -/
theorem Text.lineAt_length_append (t u : Text) : lineAt (t ++ u) t.length = 1 + t.newlines := by
  rw [lineAt, List.take_left]

namespace Program

variable {bytes s s' : List UInt8} {before before' : Text}

/-- Behind what is read before it, with one newline for each line end, damage is replaced. -/
theorem textOfBytes_of_damage (h : Utf8.Damage bytes before s) :
    ∃ after, textOfBytes bytes = before.unifyNewlines ++ Utf8.replacement :: after := by
  obtain ⟨after, hafter⟩ := h.decode_eq
  refine ⟨Text.unifyNewlines after, ?_⟩
  rw [textOfBytes, hafter]
  exact Text.unifyNewlines_append_cons (by decide) (by decide) before after

theorem getElem?_of_damage (h : Utf8.Damage bytes before s) :
    (textOfBytes bytes)[before.unifyNewlines.length]? = some Utf8.replacement := by
  obtain ⟨after, hafter⟩ := textOfBytes_of_damage h
  rw [hafter, List.getElem?_append_right le_rfl, Nat.sub_self, List.getElem?_cons_zero]

theorem lineAt_of_damage (h : Utf8.Damage bytes before s) :
    (textOfBytes bytes).lineAt before.unifyNewlines.length = 1 + before.unifyNewlines.newlines := by
  obtain ⟨after, hafter⟩ := textOfBytes_of_damage h
  rw [hafter, Text.lineAt_length_append]

/-- What is read before one damage does not go on behind what is read before another. -/
theorem eq_nil_of_damage {more : Text} (h : Utf8.Damage bytes before s)
    (h' : Utf8.Damage bytes (before ++ more) s')
    (hlen : (before ++ more).unifyNewlines.length = before.unifyNewlines.length) : more = [] := by
  obtain ⟨after, hafter⟩ := h.decode_eq
  obtain ⟨after', hafter'⟩ := h'.decode_eq
  rw [hafter, List.append_assoc, List.append_cancel_left_eq] at hafter'
  cases more with
  | nil => rfl
  | cons c more =>
    obtain rfl : Utf8.replacement = c := (List.cons.inj hafter').1
    rw [Text.unifyNewlines_append_cons (by decide) (by decide)] at hlen
    simp at hlen

/-- **Different damage is replaced at different offsets.** -/
theorem damage_unique (h : Utf8.Damage bytes before s) (h' : Utf8.Damage bytes before' s')
    (hlen : before.unifyNewlines.length = before'.unifyNewlines.length) :
    before = before' ∧ s = s' := by
  obtain rfl : before = before' := by
    obtain ⟨after, hafter⟩ := h.decode_eq
    obtain ⟨after', hafter'⟩ := h'.decode_eq
    -- both are read from the same bytes, so one of the two goes on behind the other
    rcases List.append_eq_append_iff.mp (hafter.symm.trans hafter') with
      ⟨more, rfl, -⟩ | ⟨more, rfl, -⟩
    · rw [eq_nil_of_damage h h' hlen.symm, List.append_nil]
    · rw [eq_nil_of_damage h' h hlen, List.append_nil]
  exact ⟨rfl, h.unique h'⟩

end Program

/-! ## 3. What is said about a replacement -/

/-- What is said about a replacement that belongs to nothing. -/
def Diagnostic.ofReplacement (line : Int) : Diagnostic :=
  ⟨line, "Unexpected character '\uFFFD'.".toList⟩

theorem Diagnostic.ofFault_replacement (line : Int) :
    ofFault line (.unexpected Utf8.replacement) = ofReplacement line := by
  have hmessage : (Fault.unexpected Utf8.replacement).message =
      "Unexpected character '\uFFFD'.".toList := by decide +kernel
  rw [ofFault, hmessage, ofReplacement]

/-- The classes of the units that take any character in. -/
def UnitClass.enclosing : List UnitClass := [.string, .lineComment, .blockComment]

namespace Text

/-- The character at an offset stands in a string or in a comment. -/
def Enclosed (source : Text) (offset : Nat) : Prop :=
  ∃ u ∈ (Scanner.ofSource source).trace, u.Covers offset ∧
    ∃ k ∈ UnitClass.enclosing, LongestUnit source u k

/-- The step that reads the character at an offset reports that it is a replacement. -/
def Reported (source : Text) (offset : Nat) : Prop :=
  ∃ u ∈ (Scanner.ofSource source).trace, u.Covers offset ∧
    .ofReplacement (source.lineAt offset) ∈ u.diagnostics

/-- A step of its own reports the replacement at an offset, and reports nothing else. -/
def ReportedAlone (source : Text) (offset : Nat) : Prop :=
  ∃ u ∈ (Scanner.ofSource source).trace, u.start = offset ∧ u.stop = offset + 1 ∧
    u.diagnostics = [.ofReplacement (source.lineAt offset)]

end Text

section Replacement

variable {source : Text} {offset : Nat}

/-- **A replacement is a piece by itself, or stands in a string or in a comment.** -/
theorem Piece.Shaped.cases_of_replacement {p : Piece} (h : p.Shaped)
    (hmem : Utf8.replacement ∈ p.text) :
    p = ⟨.unexpected, [Utf8.replacement]⟩ ∨ p.role.unitClass ∈ UnitClass.enclosing := by
  cases h with
  | operator o => exact absurd hmem (by cases o <;> decide)
  | word hc ht =>
    rcases List.mem_cons.mp hmem with rfl | hmem
    · exact absurd hc (by decide)
    · exact absurd (ht _ hmem) (by decide)
  | whole _ hds => exact absurd (hds _ hmem) (by decide)
  | fraction _ hds _ hfs =>
    rcases List.mem_append.mp hmem with hmem | hmem
    · exact absurd (hds _ hmem) (by decide)
    rcases List.mem_cons.mp hmem with hmem | hmem
    · exact absurd hmem (by decide)
    · exact absurd (hfs _ hmem) (by decide)
  | blank hc =>
    rw [← List.mem_singleton.mp hmem] at hc
    exact absurd hc (by decide)
  | unexpected _ =>
    rw [← List.mem_singleton.mp hmem]
    exact Or.inl rfl
  | _ => exact Or.inr (by simp [Role.unitClass, UnitClass.enclosing])

/-- What is at an offset is in the text of the piece that is read there. -/
theorem mem_text_of_covers {before after : Text} {line : Int} {p : Piece} {c : Char}
    (hcovers : (Span.ofPiece before.length line p).Covers offset)
    (hc : (before ++ p.text ++ after)[offset]? = some c) : c ∈ p.text := by
  obtain ⟨hstart, hstop⟩ := hcovers
  simp only [Span.ofPiece] at hstart hstop
  rw [List.append_assoc, List.getElem?_append_right hstart, List.getElem?_append_left (by omega)] at hc
  exact List.mem_of_getElem? hc

/-- **A replacement is reported by itself, or stands in a string or in a comment.** -/
theorem reportedAlone_or_enclosed (h : source[offset]? = some Utf8.replacement) :
    source.ReportedAlone offset ∨ source.Enclosed offset := by
  obtain ⟨hlt, -⟩ := List.getElem?_eq_some_iff.mp h
  obtain ⟨u, hu, hcovers⟩ := (tiles_trace source).exists_covers (Nat.zero_le offset) hlt
  obtain ⟨before, p, after, rfl, hp, rfl⟩ := mem_trace hu
  rcases hp.1.cases_of_replacement (mem_text_of_covers hcovers h) with rfl | hclass
  · obtain ⟨hstart, hstop⟩ := hcovers
    have hoffset : before.length = offset := by
      simp only [Span.ofPiece, List.length_singleton] at hstart hstop
      omega
    subst hoffset
    refine Or.inl ⟨_, hu, rfl, rfl, ?_⟩
    rw [List.append_assoc, Text.lineAt_length_append, ← Diagnostic.ofFault_replacement]
    rfl
  · exact Or.inr ⟨_, hu, hcovers, _, hclass, longestUnit_of_fits hp⟩

theorem Text.Reported.diagnostics_ne_nil (h : source.Reported offset) :
    (Scanner.ofSource source).trace.flatMap Span.diagnostics ≠ [] := by
  obtain ⟨u, hu, -, hd⟩ := h
  exact List.ne_nil_of_mem (List.mem_flatMap.mpr ⟨u, hu, hd⟩)

theorem Text.ReportedAlone.reported (h : source.ReportedAlone offset) : source.Reported offset := by
  obtain ⟨u, hu, hstart, hstop, hd⟩ := h
  exact ⟨u, hu, ⟨hstart.le, by omega⟩, by rw [hd]; exact List.mem_cons_self⟩

/-- Strings begin with a quote, comments with a slash. -/
theorem UnitClass.Admits.head?_of_enclosing {k : UnitClass} {p after : Text} (h : k.Admits p after)
    (hk : k ∈ enclosing) : p.head? = some '"' ∨ p.head? = some '/' := by
  cases h with
  | closedString _ | openString _ => exact Or.inl rfl
  | lineComment _ _ | closedComment _ | openComment _ => exact Or.inr rfl
  | _ => exact absurd hk (by decide)

/-- Nothing is said about a replacement in a string or in a comment. -/
theorem Text.Reported.not_enclosed (h : source.Reported offset) : ¬ source.Enclosed offset := by
  obtain ⟨u, hu, hcovers, hd⟩ := h
  rintro ⟨v, hv, hcovers', k, hk, hunit⟩
  obtain rfl := (tiles_trace source).eq_of_covers hu hv hcovers hcovers'
  rw [← Diagnostic.ofFault_replacement] at hd
  rcases diagnostic_line hv hd with ⟨c, -, htext, hfault⟩ | ⟨-, hfault⟩
  · obtain rfl : Utf8.replacement = c :=
      Fault.message_unexpected_injective (congrArg Diagnostic.message hfault)
    have hhead := hunit.admits.head?_of_enclosing hk
    rw [htext] at hhead
    exact absurd hhead (by decide)
  · exact absurd (congrArg Diagnostic.message hfault) (Fault.message_unexpected_ne _)

/-- **A replacement is reported exactly if no string and no comment encloses it.** -/
theorem Text.reported_iff (h : source[offset]? = some Utf8.replacement) :
    source.Reported offset ↔ ¬ source.Enclosed offset :=
  ⟨Text.Reported.not_enclosed, fun hopen =>
    ((reportedAlone_or_enclosed h).resolve_right hopen).reported⟩

end Replacement

/-! ## 4. Damaged files -/

namespace Program

/-- **The status and the error stream** of a file are what the steps of its scan report. -/
theorem exists_onFile_reports {path : Text} {read : Reader} {bytes : List UInt8}
    (hpath : '\x00' ∉ path) (hread : read (Path.ofText path) = .ok bytes) :
    let reports := (Scanner.ofSource (textOfBytes bytes)).trace.flatMap Span.diagnostics
    ∃ writes, onFile path read = .ok (if reports = [] then 0 else 65, writes) ∧
      errorsOf writes = Diagnostic.shown reports := by
  intro reports
  have hreports : (Scan.ofSource (textOfBytes bytes)).diagnostics = reports := diagnostics_ofSource _
  have hfile := onFile_of_read hpath hread
  have herrors := errorsOf_listing (textOfBytes bytes) .empty
  dsimp only at hfile
  rw [hreports] at hfile herrors
  exact ⟨_, hfile, herrors⟩

/-- **What becomes of a damaged file.**  A file is damaged exactly if its bytes are not valid, each
damage is replaced at an offset of its own, and the replacement is reported there, by a step that
reads nothing else, unless a string or a comment encloses it: then nothing is said about it.  So a
damaged file has the status of an error, with a report for all its damage, exactly if no damage
stands in a string or in a comment. -/
theorem onFile_damage {path : Text} {read : Reader} {bytes : List UInt8} (hpath : '\x00' ∉ path)
    (hread : read (Path.ofText path) = .ok bytes) :
    let text := textOfBytes bytes
    let offset (before : Text) : Nat := before.unifyNewlines.length
    let reports := (Scanner.ofSource text).trace.flatMap Span.diagnostics
    let status : Int := if reports = [] then 0 else 65
    (∃ writes, onFile path read = .ok (status, writes) ∧
        errorsOf writes = Diagnostic.shown reports) ∧
      ((∃ before s, Utf8.Damage bytes before s) ↔ ¬ Utf8.Valid bytes) ∧
      (∀ before s before' s', Utf8.Damage bytes before s → Utf8.Damage bytes before' s' →
        offset before = offset before' → before = before' ∧ s = s') ∧
      (∀ before s, Utf8.Damage bytes before s →
        text[offset before]? = some Utf8.replacement ∧
        text.lineAt (offset before) = 1 + before.unifyNewlines.newlines ∧
        (text.Enclosed (offset before) → ¬ text.Reported (offset before)) ∧
        (¬ text.Enclosed (offset before) → text.ReportedAlone (offset before))) ∧
      ((¬ Utf8.Valid bytes →
          status = 65 ∧ ∀ before s, Utf8.Damage bytes before s → text.Reported (offset before)) ↔
        ∀ before s, Utf8.Damage bytes before s → ¬ text.Enclosed (offset before)) := by
  intro text offset reports status
  refine ⟨exists_onFile_reports hpath hread, Utf8.exists_damage_iff, fun _ _ _ _ => damage_unique,
    ?_, ?_⟩
  · intro before s h
    have hreplaced : text[offset before]? = some Utf8.replacement := getElem?_of_damage h
    exact ⟨hreplaced, lineAt_of_damage h, fun hin hout => hout.not_enclosed hin,
      (reportedAlone_or_enclosed hreplaced).resolve_right⟩
  · constructor
    · intro hclaim before s h
      obtain ⟨-, hreported⟩ := hclaim (Utf8.exists_damage_iff.mp ⟨before, s, h⟩)
      exact (hreported before s h).not_enclosed
    · intro hopen hvalid
      have hreported : ∀ before s, Utf8.Damage bytes before s → text.Reported (offset before) :=
        fun before s h => (Text.reported_iff (getElem?_of_damage h)).mpr (hopen before s h)
      obtain ⟨before, s, h⟩ := Utf8.exists_damage_iff.mpr hvalid
      exact ⟨if_neg (hreported before s h).diagnostics_ne_nil, hreported⟩

/-- A byte that is no text on the first line, and one in a string on the second: the first is
reported, about the second nothing is said. -/
theorem onFile_damage_partly :
    let bytes : List UInt8 := [0xFF, 0x0D, 0x0A, 0x22, 0xFE, 0x22]
    let tree : FileTree := ⟨[([['f']], bytes)], []⟩
    let text := textOfBytes bytes
    tree.read (Path.ofText ['f']) = .ok bytes ∧
      (∃ writes, onFile ['f'] tree.read = .ok (65, writes) ∧
        errorsOf writes = "[line 1] Error: Unexpected character '\uFFFD'.\n".toList) ∧
      Utf8.Damage bytes [] [0xFF] ∧ Utf8.Damage bytes "\uFFFD\r\n\"".toList [0xFE] ∧
      text.ReportedAlone 0 ∧ text.Enclosed 3 ∧ ¬ text.Reported 3 := by
  intro bytes tree text
  have hread : tree.read (Path.ofText ['f']) = .ok bytes := rfl
  have hbyte : ∀ b ∈ [0xFF, 0xFE], ∀ rest,
      Utf8.NoneStarts ([b] ++ rest) ∧ Utf8.MaximalSubpart [b] rest := by
    simp only [List.forall_mem_cons]
    exact ⟨Utf8.maximalSubpart_of_none (by decide) (by decide),
      Utf8.maximalSubpart_of_none (by decide) (by decide), by simp⟩
  have hfirst : Utf8.Damage bytes [] [0xFF] :=
    .here (hbyte _ (by decide) _).1 (hbyte _ (by decide) _).2
  have hsecond : Utf8.Damage bytes "\uFFFD\r\n\"".toList [0xFE] :=
    .subpart (hbyte 0xFF (by decide) _).1 (hbyte 0xFF (by decide) _).2
      (.behind "\r\n\"".toList (.here (hbyte 0xFE (by decide) [0x22]).1 (hbyte _ (by decide) _).2))
  obtain ⟨⟨writes, hfile, herrors⟩, -, -, hdamage, -⟩ := onFile_damage (by decide) hread
  obtain ⟨-, -, hin, halone⟩ := hdamage _ _ hfirst
  obtain ⟨-, -, -, halone'⟩ := hdamage _ _ hsecond
  have hreported : text.Reported 0 := by
    show ∃ u ∈ (Scanner.ofSource text).trace, (u.start ≤ 0 ∧ 0 < u.stop) ∧
      .ofReplacement (text.lineAt 0) ∈ u.diagnostics
    decide +kernel
  have hsilent : ¬ text.Reported 3 := by
    rintro ⟨u, hu, -, hd⟩
    have hmem : .ofReplacement (text.lineAt 3) ∈
      (Scanner.ofSource text).trace.flatMap Span.diagnostics := List.mem_flatMap.mpr ⟨u, hu, hd⟩
    revert hmem
    decide +kernel
  have hstatus : (if (Scanner.ofSource text).trace.flatMap Span.diagnostics = [] then (0 : Int)
      else 65) = 65 := by decide +kernel
  have hshown : Diagnostic.shown ((Scanner.ofSource text).trace.flatMap Span.diagnostics) =
      "[line 1] Error: Unexpected character '\uFFFD'.\n".toList := by decide +kernel
  refine ⟨hread, ⟨writes, hstatus ▸ hfile, herrors.trans hshown⟩, hfirst, hsecond,
    halone fun h => hin h hreported, ?_, hsilent⟩
  by_contra hout
  exact hsilent (halone' hout).reported

/-- A byte that is no text in a string, and one in a comment: nothing is reported, and the status
is that of a file without errors. -/
theorem onFile_damage_enclosed :
    let bytes : List UInt8 := [0x22, 0xFF, 0x22, 0x2F, 0x2F, 0xFF]
    let tree : FileTree := ⟨[([['f']], bytes)], []⟩
    tree.read (Path.ofText ['f']) = .ok bytes ∧ ¬ Utf8.Valid bytes ∧
      ∃ writes, onFile ['f'] tree.read = .ok (0, writes) ∧ errorsOf writes = [] := by
  intro bytes tree
  have hread : tree.read (Path.ofText ['f']) = .ok bytes := rfl
  have hvalid : ¬ Utf8.Valid bytes := by
    rw [← Utf8.encode_decode_iff]
    decide +kernel
  have hreports : (Scanner.ofSource (textOfBytes bytes)).trace.flatMap Span.diagnostics = [] := by
    decide +kernel
  obtain ⟨writes, hfile, herrors⟩ := exists_onFile_reports (by decide) hread
  rw [hreports] at hfile herrors
  exact ⟨hread, hvalid, writes, hfile, herrors⟩

end Program

end Loxeme
