/-
# Lines that are typed in

A text that is typed in is cut into lines, and each line is scanned as if nothing had come before
it: a string or a comment that it leaves open ends with it, and what was reported about it is not
shown again.

* `Text.CutInto` says how a text is cut, and `cutInto_iff` that this is how its lines are read.
* `CutInto.append`: behind a newline the cut starts anew.
* `onLines_isolated`: what is shown is what is shown for each line alone, so a conversation can
  be taken apart behind any of its lines.
-/
import Loxeme.Proofs.Modes

namespace Loxeme

/-! ## 1. How a text is cut -/

/-- `t.CutInto ls`: the text `t` is cut behind its newlines into `ls`.  A last piece that no newline
ends is a line if it is not empty. -/
inductive Text.CutInto : Text → List Text → Prop
  | nothing : CutInto [] []
  | last {l : Text} (hne : l ≠ []) (hl : '\n' ∉ l) : CutInto l [l]
  | line {l rest : Text} {ls : List Text} (hl : '\n' ∉ l) (h : CutInto rest ls) :
      CutInto (l ++ '\n' :: rest) (l :: ls)

namespace Text

variable {t u : Text} {ls ms : List Text}

theorem cutInto_lines (t : Text) : t.CutInto t.lines := by
  induction t with
  | nil => exact .nothing
  | cons c t ih =>
    unfold lines
    by_cases hc : c = '\n'
    · subst hc
      rw [if_pos rfl]
      exact .line (l := []) (by simp) ih
    rw [if_neg hc]
    -- the character belongs to the first line of what follows, if there is one
    cases hlines : lines t with
    | nil =>
      rw [hlines] at ih
      cases ih
      exact .last (by simp) (by simp [Ne.symm hc])
    | cons l ls =>
      rw [hlines] at ih
      cases ih with
      | last hne hl => exact .last (by simp) (by simp [Ne.symm hc, hl])
      | line hl h => exact .line (l := c :: l) (by simp [Ne.symm hc, hl]) h

/-- **There is one way to cut a text**, and its lines are read that way. -/
theorem cutInto_iff : t.CutInto ls ↔ ls = t.lines := by
  constructor
  · intro h
    induction h with
    | nothing => rfl
    | last hne hl => exact (lines_of_notMem hl hne).symm
    | line hl _ ih => rw [lines_append_newline hl, ih]
  · rintro rfl
    exact cutInto_lines t

theorem CutInto.newline_notMem (h : t.CutInto ls) : ∀ l ∈ ls, '\n' ∉ l := by
  induction h with
  | nothing => simp
  | last _ hl => simpa using hl
  | line hl _ ih => simpa using ⟨hl, ih⟩

/-- **Behind a newline the cut starts anew.** -/
theorem CutInto.append (ht : t.CutInto ls) (hend : ∀ c ∈ t.getLast?, c = '\n')
    (hu : u.CutInto ms) : (t ++ u).CutInto (ls ++ ms) := by
  induction ht with
  | nothing => exact hu
  | @last l hne hl =>
    -- a last piece without its newline is not at the end of a line
    have hlast := hend _ (List.getLast?_eq_getLast_of_ne_nil hne)
    exact absurd (hlast ▸ List.getLast_mem hne) hl
  | @line l rest ls hl _ ih =>
    have hrest : ∀ c ∈ rest.getLast?, c = '\n' := by
      intro c hc
      refine hend c ?_
      rw [List.getLast?_append_of_ne_nil _ (by simp), List.getLast?_cons, hc]
      rfl
    have htext : l ++ '\n' :: rest ++ u = l ++ '\n' :: (rest ++ u) := by simp
    rw [htext]
    exact .line hl (ih hrest)

end Text

/-! ## 2. Line by line -/

namespace Program

/-- **Lines are isolated.**  A text that is typed in is cut into lines in one way.  For each line
the prompt is shown and what is shown for the line alone, with a collector of its own; a prompt and
a newline end the output.  So all that is reported is on line 1, and the status is 0.  Behind a text
of whole lines nothing is left of it: what comes next is answered as if it stood alone. -/
theorem onLines_isolated (prompt : Text) :
    let typed (input : Text) := onLines prompt input
    let alone (l : Text) := Listing.ofSource l .empty
    (∀ input : Text, ∃ ls, (∀ ls', input.CutInto ls' ↔ ls' = ls) ∧
      (typed input).1 = 0 ∧
      outputOf (typed input).2 =
        ls.flatMap (fun l => prompt ++ outputOf (alone l).writes) ++ (prompt ++ ['\n']) ∧
      errorsOf (typed input).2 = ls.flatMap (fun l => errorsOf (alone l).writes) ∧
      ∀ l ∈ ls, errorsOf (alone l).writes = Diagnostic.shown (alone l).collector.diagnostics ∧
        ∀ d ∈ (alone l).collector.diagnostics, d.line = 1) ∧
    ∀ a b : Text, (a = [] ∨ a.getLast? = some '\n') →
      ∃ front, outputOf (typed a).2 = front ++ (prompt ++ ['\n']) ∧
        outputOf (typed (a ++ b)).2 = front ++ outputOf (typed b).2 ∧
        errorsOf (typed (a ++ b)).2 = errorsOf (typed a).2 ++ errorsOf (typed b).2 := by
  intro typed alone
  have houtput : ∀ input : Text, outputOf (typed input).2 =
      input.lines.flatMap (fun l => prompt ++ outputOf (alone l).writes) ++ (prompt ++ ['\n']) :=
    fun input => (outputOf_listLines prompt input.lines).trans (List.append_assoc _ _ _)
  have herrors : ∀ input : Text, errorsOf (typed input).2 =
      input.lines.flatMap fun l => errorsOf (alone l).writes :=
    fun input => errorsOf_listLines prompt input.lines
  constructor
  · intro input
    refine ⟨input.lines, fun ls' => Text.cutInto_iff, rfl, houtput input, herrors input, ?_⟩
    intro l hl
    refine ⟨errorsOf_listing l .empty, ?_⟩
    exact fun d => line_of_newline_notMem ((Text.cutInto_lines input).newline_notMem l hl)
  · intro a b ha
    have hend : ∀ c ∈ a.getLast?, c = '\n' := by
      rcases ha with rfl | ha
      · simp
      · simp [ha]
    have hlines : (a ++ b).lines = a.lines ++ b.lines :=
      (Text.cutInto_iff.mp ((Text.cutInto_lines a).append hend (Text.cutInto_lines b))).symm
    refine ⟨a.lines.flatMap fun l => prompt ++ outputOf (alone l).writes, houtput a, ?_, ?_⟩
    · rw [houtput, houtput, hlines, List.flatMap_append, List.append_assoc]
    · rw [herrors, herrors, herrors, hlines, List.flatMap_append]

/-- A string that the first line leaves open ends there; the second line is not ended by a newline
and holds a carriage return. -/
theorem onLines_isolated_open_string :
    let typed (input : Text) := onLines "> ".toList input
    errorsOf (typed "\"x\n#\ra".toList).2 =
        errorsOf (typed "\"x\n".toList).2 ++ errorsOf (typed "#\ra".toList).2 ∧
      errorsOf (typed "\"x\n".toList).2 = "[line 1] Error: Unterminated string.\n".toList ∧
      errorsOf (typed "#\ra".toList).2 =
        "[line 1] Error: Unexpected character '#'.\n".toList ∧
      outputOf (typed "\"x\n#\ra".toList).2 =
        "> EOF  nil\n> IDENTIFIER a nil\nEOF  nil\n> \n".toList := by
  intro typed
  have hlast : "\"x\n".toList = [] ∨ "\"x\n".toList.getLast? = some '\n' := Or.inr rfl
  obtain ⟨front, hfront, houtput, herrors⟩ :=
    (onLines_isolated "> ".toList).2 "\"x\n".toList "#\ra".toList hlast
  have hfirst : outputOf (typed "\"x\n".toList).2 = "> EOF  nil\n".toList ++ "> \n".toList := by
    decide +kernel
  have hsecond : outputOf (typed "#\ra".toList).2 =
      "> IDENTIFIER a nil\nEOF  nil\n> \n".toList := by decide +kernel
  obtain rfl : "> EOF  nil\n".toList = front :=
    List.append_cancel_right (hfirst.symm.trans hfront)
  refine ⟨herrors, by decide +kernel, by decide +kernel, houtput.trans ?_⟩
  exact congrArg ("> EOF  nil\n".toList ++ ·) hsecond

end Program
end Loxeme
