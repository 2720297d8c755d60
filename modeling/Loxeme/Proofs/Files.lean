/-
# Files

A text may be stored with any line ends, one by one: a newline as a newline, as a carriage return
and a newline, or as a carriage return.  Only a carriage return must not stand right before a
newline that is to be another one, since the two would be read as one.

* `Text.StoredAs` lists the ways to store a text, and `unifyNewlines_eq_iff` says that they are
  exactly the texts that are read as it.
* `onFile_of_read`: a file is listed as its text is.
* `onFile_storedAs`: so it does not matter how a text was stored.
-/
import Loxeme.Program
import Loxeme.Proofs.Encoding

namespace Loxeme

/-! ## 1. Line ends -/

/-- `t.StoredAs u`: the text `t`, with each newline written in one of three ways.  A carriage
return alone is not written before a newline that is written as itself. -/
inductive Text.StoredAs : Text → Text → Prop
  | nil : StoredAs [] []
  | char {c : Char} {t u : Text} (hc : c ≠ '\n') (h : StoredAs t u) : StoredAs (c :: t) (c :: u)
  | newline {t u : Text} (h : StoredAs t u) : StoredAs ('\n' :: t) ('\n' :: u)
  | both {t u : Text} (h : StoredAs t u) : StoredAs ('\n' :: t) ('\r' :: '\n' :: u)
  | carriageReturn {t u : Text} (h : StoredAs t u) (hu : u.head? ≠ some '\n') :
      StoredAs ('\n' :: t) ('\r' :: u)

namespace Text

variable {t u : Text}

theorem unifyNewlines_cons {c : Char} (h : c ≠ '\r' ∨ u.head? ≠ some '\n') :
    unifyNewlines (c :: u) = (if c = '\r' then '\n' else c) :: unifyNewlines u := by
  refine unifyNewlines.eq_3 c u ?_
  rintro rest rfl rfl
  exact h.elim (absurd rfl) (absurd rfl)

/-- **What is stored is read again.** -/
theorem unifyNewlines_of_storedAs (h : t.StoredAs u) (ht : '\r' ∉ t) : unifyNewlines u = t := by
  induction h with
  | nil => rfl
  | char hc h ih =>
    simp only [List.mem_cons, not_or] at ht
    rw [unifyNewlines_cons (Or.inl (Ne.symm ht.1)), if_neg (Ne.symm ht.1), ih ht.2]
  | newline h ih =>
    rw [unifyNewlines_cons (Or.inl (by decide)), if_neg (by decide), ih (by simpa using ht)]
  | both h ih => rw [unifyNewlines, ih (by simpa using ht)]
  | carriageReturn h hu ih =>
    rw [unifyNewlines_cons (Or.inr hu), if_pos rfl, ih (by simpa using ht)]

/-- Every text is a way to store the text that it is read as. -/
theorem storedAs_unifyNewlines (u : Text) : (unifyNewlines u).StoredAs u := by
  fun_induction unifyNewlines u with
  | case1 => exact .nil
  | case2 rest ih => exact .both ih
  | case3 c rest hne ih =>
    by_cases hr : c = '\r'
    · subst hr
      refine .carriageReturn ih ?_
      intro hhead
      obtain ⟨tail, rfl⟩ := List.head?_eq_some_iff.mp hhead
      exact hne tail rfl rfl
    · rw [if_neg hr]
      by_cases hn : c = '\n'
      · subst hn
        exact .newline ih
      · exact .char hn ih

/-- **Which texts are read as a given one.** -/
theorem unifyNewlines_eq_iff : unifyNewlines u = t ↔ t.StoredAs u ∧ '\r' ∉ t := by
  constructor
  · rintro rfl
    exact ⟨storedAs_unifyNewlines u, cr_notMem_unifyNewlines u⟩
  · rintro ⟨h, ht⟩
    exact unifyNewlines_of_storedAs h ht

end Text

/-! ## 2. Reading and listing -/

namespace Program

theorem textOfBytes_encode (u : Text) : textOfBytes (Utf8.encode u) = Text.unifyNewlines u := by
  rw [textOfBytes, Utf8.decode_encode]

/-- The status tells whether anything is reported about the text. -/
theorem status_listing (text : Text) :
    (if (Listing.ofSource text .empty).collector.hadError then Status.dataError else Status.ok) =
      if (Scan.ofSource text).diagnostics = [] then 0 else 65 := by
  have herror : (Listing.ofSource text .empty).collector.hadError = true ↔
      (Scan.ofSource text).diagnostics ≠ [] := Collector.hadError_iff _
  by_cases h : (Scan.ofSource text).diagnostics = []
  · rw [if_neg (fun h' => herror.mp h' h), if_pos h]
    rfl
  · rw [if_pos (herror.mpr h), if_neg h]
    rfl

section OnFile

variable {path : Text} {read : Reader}

/-- **A file is listed as its text is**, behind the note that it was opened. -/
theorem onFile_of_read (hpath : '\x00' ∉ path) {bytes : List UInt8}
    (hread : read (Path.ofText path) = .ok bytes) :
    let text := textOfBytes bytes
    onFile path read = .ok (if (Scan.ofSource text).diagnostics = [] then 0 else 65,
      .log (.opened (Path.ofText path).display text.length) ::
        (Listing.ofSource text .empty).writes) := by
  intro text
  have hnul : path.contains '\x00' = false := by simpa using hpath
  rw [← status_listing, onFile, hnul]
  dsimp only
  rw [hread]
  rfl

/-- **It does not matter how a text was stored.**  Whichever of the ways was taken for each
newline, the file is listed as the text is by itself, and the status tells whether anything is
reported about the text. -/
theorem onFile_storedAs {t u : Text} (ht : '\r' ∉ t) (hu : t.StoredAs u) (hpath : '\x00' ∉ path)
    (hread : read (Path.ofText path) = .ok (Utf8.encode u)) :
    let alone := Listing.ofSource t .empty
    ∃ writes,
      onFile path read =
          .ok (if (Scan.ofSource t).diagnostics = [] then 0 else 65, writes) ∧
        outputOf writes = outputOf alone.writes ∧ errorsOf writes = errorsOf alone.writes := by
  intro alone
  have htext : textOfBytes (Utf8.encode u) = t := by
    rw [textOfBytes_encode]
    exact Text.unifyNewlines_of_storedAs hu ht
  have hlisted := onFile_of_read hpath hread
  rw [htext] at hlisted
  exact ⟨_, hlisted, rfl, rfl⟩

end OnFile

/-- A string over two lines, a blank line and a stray character: the newlines are stored as a
carriage return, as another one, as both, and as a newline. -/
theorem onFile_storedAs_mixed :
    let t : Text := "\"é\n\"\n\n#\n".toList
    let u : Text := "\"é\r\"\r\r\n#\n".toList
    let tree : FileTree := ⟨[([['f']], Utf8.encode u)], []⟩
    '\r' ∉ t ∧ t.StoredAs u ∧ tree.read (Path.ofText ['f']) = .ok (Utf8.encode u) ∧
      ∃ writes, onFile ['f'] tree.read = .ok (65, writes) ∧
        outputOf writes = "STRING \"é\n\" é\n\nEOF  nil\n".toList ∧
        errorsOf writes = "[line 4] Error: Unexpected character '#'.\n".toList := by
  intro t u tree
  have hread : tree.read (Path.ofText ['f']) = .ok (Utf8.encode u) := rfl
  obtain ⟨hu, ht⟩ : t.StoredAs u ∧ '\r' ∉ t := Text.unifyNewlines_eq_iff.mp (by decide)
  obtain ⟨writes, hfile, houtput, herrors⟩ := onFile_storedAs ht hu (by decide) hread
  have hstatus : (if (Scan.ofSource t).diagnostics = [] then (0 : Int) else 65) = 65 := by
    decide +kernel
  rw [hstatus] at hfile
  refine ⟨ht, hu, hread, writes, hfile, houtput.trans ?_, herrors.trans ?_⟩
  · decide +kernel
  · decide +kernel

end Program
end Loxeme
