/-
# A file and its lines

Lines that are typed in are listed one by one, each on line 1; a file that holds the same lines is
listed as a whole.  If no line leaves a string or a comment open, the two listings have the same
tokens, and the same diagnostics but for the line numbers.

* `lines_flatMap_line`: what the lines of a text are is known if each is closed by a newline.
* `startingOn_lines`: a scan of closed lines is the scans of the lines, one after the other.
* `outputOf_listLines`, `errorsOf_listLines`: what is shown for lines that are typed in.
* `onFile_onLines` compares the two.
-/
import Loxeme.Proofs.Files
import Loxeme.Proofs.Listings
import Loxeme.Proofs.Parts

namespace Loxeme

/-! ## 1. Lines -/

namespace Text

variable {ls : List Text}

theorem flatMap_line_cons (l : Text) (ls : List Text) :
    (l :: ls).flatMap line = l ++ '\n' :: ls.flatMap line := by
  simp [line]

/-- **The lines of a text** that closes each with a newline. -/
theorem lines_flatMap_line (h : ∀ l ∈ ls, '\n' ∉ l) : lines (ls.flatMap line) = ls := by
  induction ls with
  | nil => rfl
  | cons l ls ih =>
    rw [flatMap_line_cons, lines_append_newline (h l List.mem_cons_self),
      ih fun l' hl' => h l' (List.mem_cons_of_mem _ hl')]

end Text

/-! ## 2. A scan of lines -/

/-- The diagnostic, put on a line. -/
def Diagnostic.onLine (line : Int) (d : Diagnostic) : Diagnostic := { d with line := line }

/-- A line without a string or a comment that goes on behind it. -/
structure Text.IsClosedLine (l : Text) : Prop where
  newline : '\n' ∉ l
  closed : (Scan.ofSource l).Closed

/-- What is shown for a token does not say where the token stands. -/
theorem Token.shown_moved (k : Int) (ts : List Token) : shown (ts.map (moved k)) = shown ts :=
  List.flatMap_map ..

/-- The end token's line closes what is shown for the tokens of a scan. -/
theorem Token.shown_tokens (source : Text) : shown (Scan.ofSource source).tokens =
    shown (Scan.ofSource source).tokens.dropLast ++ "EOF  nil\n".toList := by
  obtain ⟨line, hend⟩ := tokens_eq_dropLast_append source
  have hshown : shown (Scan.ofSource source).tokens = _ := congrArg shown hend
  rw [hshown, shown, List.flatMap_append]
  rfl

/-- What is reported about a source of one line is on line 1. -/
theorem line_of_newline_notMem {l : Text} (h : '\n' ∉ l) {d : Diagnostic}
    (hd : d ∈ (Scan.ofSource l).diagnostics) : d.line = 1 := by
  rw [diagnostics_ofSource] at hd
  obtain ⟨u, hu, hdu⟩ := List.mem_flatMap.mp hd
  have hcount : Text.newlines (l.take u.stop) = 0 :=
    List.count_eq_zero.mpr fun hmem => h (List.mem_of_mem_take hmem)
  rw [diagnostic_line_stop hu hdu, Text.lineAt, hcount]
  rfl

/-- A diagnostic about a source of one line is on line 1 already. -/
theorem map_onLine_one {l : Text} (h : '\n' ∉ l) :
    (Scan.ofSource l).diagnostics.map (Diagnostic.onLine 1) = (Scan.ofSource l).diagnostics := by
  refine (List.map_congr_left ?_).trans (List.map_id _)
  intro d hd
  rw [Diagnostic.onLine, ← line_of_newline_notMem h hd]
  rfl

/-- **A closed line in front.**  Its tokens stand in front of those of the rest, and so do its
diagnostics, each on the line where it stands now. -/
theorem startingOn_line {l : Text} (h : l.IsClosedLine) (line : Int) (rest : Text) :
    Token.shown (Scan.startingOn line (l ++ '\n' :: rest)).tokens =
        Token.shown (Scan.ofSource l).tokens.dropLast ++
          Token.shown (Scan.startingOn (line + 1) rest).tokens ∧
      (Scan.startingOn line (l ++ '\n' :: rest)).diagnostics =
        (Scan.ofSource l).diagnostics.map (Diagnostic.onLine line) ++
          (Scan.startingOn (line + 1) rest).diagnostics := by
  have hlines : line + Text.newlines l + 1 = line + 1 := by
    rw [Text.newlines, List.count_eq_zero.mpr h.newline]
    omega
  obtain ⟨htokens, hevents⟩ := startingOn_append_newline (isOpen_of_closed h.closed) rest line
  rw [hlines, startingOn_eq_moved line l] at htokens hevents
  constructor
  · have hfront : ((Scan.ofSource l).moved (line - 1)).tokens.dropLast =
        (Scan.ofSource l).tokens.dropLast.map (Token.moved (line - 1)) :=
      (List.map_dropLast ..).symm
    rw [htokens, Token.shown, List.flatMap_append, hfront]
    exact congrArg (· ++ _) (Token.shown_moved (line - 1) _)
  · have hfront : (Scan.ofSource l).diagnostics.map (Diagnostic.moved (line - 1)) =
        (Scan.ofSource l).diagnostics.map (Diagnostic.onLine line) := by
      refine List.map_congr_left ?_
      intro d hd
      rw [Diagnostic.moved, line_of_newline_notMem h.newline hd, Diagnostic.onLine]
      congr 1
      omega
    rw [← hfront, ← Scan.diagnostics_moved]
    exact (congrArg diagnosticsOf hevents).trans (diagnosticsOf_append _ _)

/-- **Closed lines** are scanned as each of them is alone. -/
theorem startingOn_lines {ls : List Text} (h : ∀ l ∈ ls, l.IsClosedLine) (line : Nat) :
    Token.shown (Scan.startingOn line (ls.flatMap Text.line)).tokens =
        ls.flatMap (fun l => Token.shown (Scan.ofSource l).tokens.dropLast) ++
          "EOF  nil\n".toList ∧
      (Scan.startingOn line (ls.flatMap Text.line)).diagnostics =
        (ls.zipIdx line).flatMap fun x =>
          (Scan.ofSource x.1).diagnostics.map (Diagnostic.onLine x.2) := by
  induction ls generalizing line with
  | nil =>
    have hnil : Scan.startingOn line [] = ⟨[Token.endOn line], [], line⟩ := by
      simp [Scan.startingOn, place]
    rw [List.flatMap_nil, hnil]
    exact ⟨rfl, rfl⟩
  | cons l ls ih =>
    obtain ⟨htokens, hdiagnostics⟩ :=
      startingOn_line (h l List.mem_cons_self) line (ls.flatMap Text.line)
    obtain ⟨ihtokens, ihdiagnostics⟩ :=
      ih (fun l' hl' => h l' (List.mem_cons_of_mem _ hl')) (line + 1)
    rw [Int.natCast_succ] at ihtokens ihdiagnostics
    rw [Text.flatMap_line_cons, htokens, hdiagnostics, ihtokens, ihdiagnostics]
    refine ⟨?_, rfl⟩
    rw [List.flatMap_cons, List.append_assoc]

/-- Nothing is reported about closed lines if nothing is about each of them. -/
theorem diagnostics_lines_eq_nil_iff {ls : List Text} (h : ∀ l ∈ ls, l.IsClosedLine) :
    (Scan.ofSource (ls.flatMap Text.line)).diagnostics = [] ↔
      ∀ l ∈ ls, (Scan.ofSource l).diagnostics = [] := by
  have hfirst : ∀ P : Text → Prop, (∀ x ∈ ls.zipIdx 1, P x.1) ↔ ∀ l ∈ ls, P l := by
    intro P
    rw [← List.forall_mem_map, List.zipIdx_map_fst]
  rw [Scan.ofSource, ← Int.natCast_one, (startingOn_lines h 1).2, List.flatMap_eq_nil_iff]
  simp only [List.map_eq_nil_iff]
  exact hfirst fun l => (Scan.ofSource l).diagnostics = []

/-! ## 3. Lines that are typed in -/

namespace Program

section Lines

variable (prompt : Text) (ls : List Text)

/-- The output for lines: the prompt and the listing of each, and a prompt at the end. -/
theorem outputOf_listLines : outputOf (listLines prompt .empty ls) =
    ls.flatMap (fun l => prompt ++ outputOf (Listing.ofSource l .empty).writes) ++
      prompt ++ ['\n'] := by
  induction ls with
  | nil => simp [listLines, outputOf]
  | cons l ls ih =>
    have hstep : outputOf (listLines prompt .empty (l :: ls)) =
        prompt ++ (outputOf (Listing.ofSource l .empty).writes ++
          outputOf (listLines prompt .empty ls)) := by
      rw [← outputOf_append]
      rfl
    rw [hstep, ih, List.flatMap_cons]
    simp only [List.append_assoc]

/-- The error stream for lines: that of each, since the collector is emptied behind it. -/
theorem errorsOf_listLines : errorsOf (listLines prompt .empty ls) =
    ls.flatMap fun l => errorsOf (Listing.ofSource l .empty).writes := by
  induction ls with
  | nil => rfl
  | cons l ls ih =>
    have hstep : errorsOf (listLines prompt .empty (l :: ls)) =
        errorsOf (Listing.ofSource l .empty).writes ++ errorsOf (listLines prompt .empty ls) := by
      rw [← errorsOf_append]
      rfl
    rw [hstep, ih, List.flatMap_cons]

/-- Lines are typed in one by one. -/
theorem onLines_lines {ls : List Text} (h : ∀ l ∈ ls, '\n' ∉ l) :
    onLines prompt (ls.flatMap Text.line) = (0, listLines prompt .empty ls) := by
  rw [onLines, Text.lines_flatMap_line h]
  rfl

end Lines

/-! ## 4. The two ways -/

/-- A file of lines without carriage returns is read as it stands. -/
theorem textOfBytes_lines {ls : List Text} (h : ∀ l ∈ ls, '\r' ∉ l) :
    textOfBytes (Utf8.encode (ls.flatMap Text.line)) = ls.flatMap Text.line := by
  rw [textOfBytes_encode]
  refine Text.unifyNewlines_of_notMem ?_
  intro hmem
  obtain ⟨l, hl, hcr⟩ := List.mem_flatMap.mp hmem
  rcases List.mem_append.mp hcr with hcr | hcr
  · exact h l hl hcr
  · exact absurd hcr (by decide)

section Modes

variable {path : Text} {read : Reader} {ls : List Text}

/-- **A file is listed as its lines are.**  Take lines none of which leaves a string or a comment
open, and a file that holds each of them with a newline behind it.  The output for the file is that
for the lines, one by one, without the end tokens, and then an end token; typed in, each line has
the prompt in front and its whole output behind.  What is reported about a line that is typed in is
on line 1, and the same is reported about the file on the line's own number.  Lines that are typed
in have the status 0, and the file has the status 65 if anything is reported about them. -/
theorem onFile_onLines (prompt : Text) (hpath : '\x00' ∉ path)
    (hls : ∀ l ∈ ls, '\n' ∉ l ∧ '\r' ∉ l ∧ (Scan.ofSource l).Closed)
    (hread : read (Path.ofText path) = .ok (Utf8.encode (ls.flatMap Text.line))) :
    let alone (l : Text) := Listing.ofSource l .empty
    let reports (line : Int) (l : Text) :=
      Diagnostic.shown ((Scan.ofSource l).diagnostics.map (Diagnostic.onLine line))
    let body (l : Text) := Token.shown (Scan.ofSource l).tokens.dropLast
    let typed := onLines prompt (ls.flatMap Text.line)
    ∃ status writes, onFile path read = .ok (status, writes) ∧
      (∀ l ∈ ls, outputOf (alone l).writes = body l ++ "EOF  nil\n".toList) ∧
      outputOf writes = ls.flatMap body ++ "EOF  nil\n".toList ∧
      outputOf typed.2 =
        ls.flatMap (fun l => prompt ++ outputOf (alone l).writes) ++ prompt ++ ['\n'] ∧
      (∀ l ∈ ls, errorsOf (alone l).writes = reports 1 l) ∧
      errorsOf typed.2 = ls.flatMap (reports 1) ∧
      errorsOf writes = (ls.zipIdx 1).flatMap (fun x => reports x.2 x.1) ∧
      typed.1 = 0 ∧ status = if errorsOf typed.2 = [] then 0 else 65 := by
  intro alone reports body typed
  have hclosed : ∀ l ∈ ls, l.IsClosedLine := fun l hl => ⟨(hls l hl).1, (hls l hl).2.2⟩
  have htyped : typed = (0, listLines prompt .empty ls) :=
    onLines_lines prompt fun l hl => (hls l hl).1
  have hlisted := onFile_of_read hpath hread
  rw [textOfBytes_lines fun l hl => (hls l hl).2.1] at hlisted
  obtain ⟨htokens, hdiagnostics⟩ := startingOn_lines hclosed 1
  have halone : ∀ l ∈ ls, errorsOf (alone l).writes = reports 1 l := by
    intro l hl
    rw [errorsOf_listing]
    exact (congrArg Diagnostic.shown (map_onLine_one (hls l hl).1)).symm
  have herrors : errorsOf typed.2 = ls.flatMap (reports 1) := by
    rw [htyped, errorsOf_listLines]
    exact List.flatMap_congr halone
  have hnothing : (Scan.ofSource (ls.flatMap Text.line)).diagnostics = [] ↔
      errorsOf typed.2 = [] := by
    rw [diagnostics_lines_eq_nil_iff hclosed, herrors, List.flatMap_eq_nil_iff]
    simp only [reports, Diagnostic.shown_eq_nil_iff, List.map_eq_nil_iff]
  refine ⟨_, _, hlisted, ?_, ?_, ?_, halone, herrors, ?_, rfl, ?_⟩
  · intro l _
    exact (outputOf_listing l .empty).trans (Token.shown_tokens l)
  · exact (outputOf_listing _ .empty).trans htokens
  · rw [htyped]
    exact outputOf_listLines prompt ls
  · refine (errorsOf_listing _ .empty).trans ((congrArg Diagnostic.shown hdiagnostics).trans ?_)
    exact List.flatMap_assoc
  · by_cases h : errorsOf typed.2 = []
    · rw [if_pos h, if_pos (hnothing.mpr h)]
    · rw [if_neg h, if_neg (fun h' => h (hnothing.mp h'))]

end Modes

/-- A line with a stray character, an empty line, and a line with a string, a stray character and
a comment that holds a quote. -/
theorem onFile_onLines_three :
    let ls : List Text := ["a#".toList, [], "\"x\"é//\"".toList]
    let t := ls.flatMap Text.line
    let tree : FileTree := ⟨[([['f']], Utf8.encode t)], []⟩
    let typed := onLines "> ".toList t
    (∀ l ∈ ls, '\n' ∉ l ∧ '\r' ∉ l ∧ (Scan.ofSource l).Closed) ∧
      tree.read (Path.ofText ['f']) = .ok (Utf8.encode t) ∧
      typed.1 = 0 ∧
      errorsOf typed.2 = "[line 1] Error: Unexpected character '#'.\n".toList ++
        "[line 1] Error: Unexpected character 'é'.\n".toList ∧
      ∃ writes, onFile ['f'] tree.read = .ok (65, writes) ∧
        outputOf writes = "IDENTIFIER a nil\nSTRING \"x\" x\nEOF  nil\n".toList ∧
        errorsOf writes = "[line 1] Error: Unexpected character '#'.\n".toList ++
          "[line 3] Error: Unexpected character 'é'.\n".toList := by
  intro ls t tree typed
  have hls : ∀ l ∈ ls, '\n' ∉ l ∧ '\r' ∉ l ∧ (Scan.ofSource l).Closed := by decide +kernel
  have hread : tree.read (Path.ofText ['f']) = .ok (Utf8.encode t) := rfl
  obtain ⟨status, writes, hfile, -, houtput, -, -, htyped, herrors, hok, hstatus⟩ :=
    onFile_onLines "> ".toList (by decide) hls hread
  have htyped' : errorsOf typed.2 = "[line 1] Error: Unexpected character '#'.\n".toList ++
      "[line 1] Error: Unexpected character 'é'.\n".toList := by
    refine htyped.trans ?_
    decide +kernel
  obtain rfl : status = 65 := by
    rw [hstatus]
    refine if_neg ?_
    rw [htyped']
    decide
  refine ⟨hls, hread, hok, htyped', writes, hfile, houtput.trans ?_, herrors.trans ?_⟩
  · decide +kernel
  · decide +kernel

end Program
end Loxeme
