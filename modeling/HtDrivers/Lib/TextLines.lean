import Mathlib.Data.List.TakeWhile
import Mathlib.Tactic

/-! Texts as lines that end at newlines: the first line, what is behind it, and texts that are put together from lines.
-/
namespace HtDrivers.Lib.TextLines
set_option autoImplicit false

def linesOf (text : List Char) : List (List Char) := text.splitOn '\n'

def firstLine (text : List Char) : List Char := text.takeWhile fun c => c != '\n'

/-- What follows the end of the first line. -/
def afterLine (text : List Char) : List Char := (text.dropWhile fun c => c != '\n').tail

section Lines
variable {c : Char} (s text : List Char)

@[simp] theorem firstLine_newline : firstLine ('\n' :: s) = [] := rfl

@[simp] theorem afterLine_newline : afterLine ('\n' :: s) = s := rfl

theorem firstLine_cons (h : c ≠ '\n') : firstLine (c :: s) = c :: firstLine s := by
  simp [firstLine, h]

theorem afterLine_cons (h : c ≠ '\n') : afterLine (c :: s) = afterLine s := by
  simp [afterLine, h]

/-- A text that does not end with its first line goes on behind a newline. -/
theorem newline_cases : text = firstLine text ∧ afterLine text = [] ∨ text = firstLine text ++ '\n' ::
    afterLine text := by
  induction text with
  | nil => exact .inl ⟨rfl, rfl⟩
  | cons c s ih =>
    by_cases hc : c = '\n'
    · subst hc
      exact .inr rfl
    · rw [firstLine_cons s hc, afterLine_cons s hc]
      obtain ⟨hline, hafter⟩ | htext := ih
      · exact .inl ⟨congrArg (c :: ·) hline, hafter⟩
      · exact .inr (congrArg (c :: ·) htext)

theorem newline_notMem_firstLine : '\n' ∉ firstLine text := by
  intro hmem
  simpa using List.mem_takeWhile_imp hmem

/-- The first line, and the lines behind it if it has an end. -/
theorem linesOf_cases : linesOf text = [firstLine text] ∧ afterLine text = [] ∨
    linesOf text = firstLine text :: linesOf (afterLine text) := by
  have hline := newline_notMem_firstLine text
  obtain ⟨htext, hafter⟩ | htext := newline_cases text
  · have hsame : linesOf text = linesOf (firstLine text) := congrArg linesOf htext
    exact .inl ⟨hsame.trans (List.splitOn_eq_singleton hline), hafter⟩
  · refine .inr ?_
    conv_lhs => rw [htext]
    exact List.splitOn_append_cons_self_of_not_mem hline _

end Lines
end HtDrivers.Lib.TextLines
