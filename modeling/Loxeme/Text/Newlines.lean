/-
# Line ends

Two readings of the ends of lines.

* `Text.unifyNewlines` reads a file: a carriage return with the newline after it, and a
  carriage return alone, are each one newline.
* `Text.lines` cuts a text that is read line by line: at newlines only, and a last piece
  counts as a line if it is not empty.

`cr_notMem_unifyNewlines` says that the first leaves no carriage return, and
`lines_append_newline` with `lines_of_notMem` determine the second.
-/
import Loxeme.Text.Basic

namespace Loxeme.Text

/-! ## 1. One newline for each line end -/

/-- Every line end, written as newline, carriage return, or both, becomes one newline. -/
def unifyNewlines : Text → Text
  | [] => []
  | '\r' :: '\n' :: rest => '\n' :: unifyNewlines rest
  | c :: rest => (if c = '\r' then '\n' else c) :: unifyNewlines rest

/-- No carriage return is left. -/
theorem cr_notMem_unifyNewlines (t : Text) : '\r' ∉ unifyNewlines t := by
  fun_induction unifyNewlines t with
  | case1 => simp
  | case2 rest ih => simp [ih]
  | case3 c rest _ ih =>
    by_cases h : c = '\r'
    · simp [h, ih]
    · simp [h, ih, Ne.symm h]

/-- A text without carriage returns is read as it stands. -/
theorem unifyNewlines_of_notMem {t : Text} (h : '\r' ∉ t) : unifyNewlines t = t := by
  fun_induction unifyNewlines t with
  | case1 => rfl
  | case2 rest => simp at h
  | case3 c rest _ ih =>
    simp only [List.mem_cons, not_or] at h
    simp [Ne.symm h.1, ih h.2]

/-! ## 2. Lines -/

/-- The lines of a text, without their newlines. -/
def lines : Text → List Text
  | [] => []
  | c :: rest =>
    if c = '\n' then [] :: lines rest
    else
      match lines rest with
      | [] => [[c]]
      | l :: ls => (c :: l) :: ls

/-- A first line that a newline ends. -/
theorem lines_append_newline {l : Text} (hl : '\n' ∉ l) (rest : Text) :
    lines (l ++ '\n' :: rest) = l :: lines rest := by
  induction l with
  | nil => simp [lines]
  | cons c l ih =>
    simp only [List.mem_cons, not_or] at hl
    simp [lines, Ne.symm hl.1, ih hl.2]

/-- A last line that no newline ends. -/
theorem lines_of_notMem {l : Text} (hl : '\n' ∉ l) (hne : l ≠ []) : lines l = [l] := by
  induction l with
  | nil => exact absurd rfl hne
  | cons c l ih =>
    simp only [List.mem_cons, not_or] at hl
    cases l with
    | nil => simp [lines, Ne.symm hl.1]
    | cons d l => rw [lines, if_neg (Ne.symm hl.1), ih hl.2 (by simp)]

end Loxeme.Text
