import StringReport.Character.Blank

/-!
# Greedy word wrap

Words are filled into lines in order: a word goes on the current line if the line
stays within the width, and else it opens the next one. Lengths are counted in
bytes. A word longer than the width has a line of its own.
-/
namespace StringReport.Wrap

/-- The word that a text opens with, empty before a blank, and the words after it. -/
def split : List Char → List Char × List (List Char)
  | [] => ([], [])
  | c :: rest =>
    let (word, later) := split rest
    if Character.isBlank c then ([], if word.isEmpty then later else word :: later)
    else (c :: word, later)

/-- The words of a text: its longest runs without a blank. -/
def words (text : String) : List String :=
  let (word, later) := split text.toList
  (if word.isEmpty then later else word :: later).map String.ofList

/-- The length of a word. -/
def size (word : String) : Nat := word.utf8ByteSize

/-- The lines that are done, and the one that words are put on; no word is on it yet if it is
empty. -/
structure Lines where
  done : List String := []
  current : String := ""

/-- Put a word on the current line, or on a new one if the width does not allow it. -/
def Lines.add (width : Nat) (lines : Lines) (word : String) : Lines :=
  if lines.current.isEmpty then { lines with current := word }
  else if size lines.current + 1 + size word ≤ width then
    { lines with current := lines.current ++ " " ++ word }
  else ⟨lines.done ++ [lines.current], word⟩

/-- All lines, the current one too if there is a word on it. -/
def Lines.all (lines : Lines) : List String :=
  if lines.current.isEmpty then lines.done else lines.done ++ [lines.current]

end StringReport.Wrap

namespace StringReport

/-- A text wrapped to a width, its lines parted by line feeds. -/
def wrap (text : String) (width : Nat) : String :=
  "\n".intercalate ((Wrap.words text).foldl (Wrap.Lines.add width) {}).all

end StringReport
