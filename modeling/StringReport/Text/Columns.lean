import StringReport.Text.ControlSequence
import StringReport.Text.Follower
import StringReport.Text.Terminal

/-!
# The columns a text takes on a terminal

A text takes the columns of the pieces between its control sequences, each measured for
itself. What its sequences are depends on whether a text is measured by itself or as part of
a table: by itself it is searched for common forms, in a table it is read as by a terminal. A
text in which nothing opens a sequence takes the same columns in both.
-/
namespace StringReport

/-- The columns of pieces of text, each for itself. -/
def totalWidth (pieces : List (List Char)) : Nat := (pieces.map textWidth).sum

/-- The columns of a text by itself. -/
def displayWidth (s : String) : Nat := totalWidth (ControlSequence.pieces s.toList)

/-- The columns of a text in a table. -/
def tableWidth (s : String) : Nat := totalWidth (Terminal.texts s.toList)

/-- The given number of spaces. -/
def spaces (n : Nat) : String := String.ofList (List.replicate n ' ')

/-- A text with spaces after it, up to the given number of columns; a wider text stays as
it is. -/
def padRight (s : String) (width : Nat) : String := s ++ spaces (width - displayWidth s)

@[simp] theorem toList_spaces (n : Nat) : (spaces n).toList = List.replicate n ' ' := by
  simp [spaces]

@[simp] theorem spaces_zero : spaces 0 = "" := rfl

@[simp] theorem displayWidth_empty : displayWidth "" = 0 := by decide

@[simp] theorem tableWidth_empty : tableWidth "" = 0 := by decide

/-- Without a character that opens a sequence, all of a text is measured. -/
theorem displayWidth_eq_textWidth {s : String}
    (h : ∀ c ∈ s.toList, ControlSequence.isIntroducer c = false) :
    displayWidth s = textWidth s.toList := by
  simp [displayWidth, totalWidth, ControlSequence.pieces_eq_singleton h]

theorem tableWidth_eq_textWidth {s : String} (h : ∀ c ∈ s.toList, c ≠ Character.escape) :
    tableWidth s = textWidth s.toList := by
  simp [tableWidth, totalWidth, Terminal.texts, Terminal.pieces_of_forall_ne h]

/-- The two readings of a text part only where something opens a sequence. -/
theorem tableWidth_eq_displayWidth {s : String}
    (h : ∀ c ∈ s.toList, ControlSequence.isIntroducer c = false) :
    tableWidth s = displayWidth s := by
  rw [displayWidth_eq_textWidth h, tableWidth_eq_textWidth]
  rintro c hc rfl
  exact absurd (h _ hc) (by decide)

end StringReport
