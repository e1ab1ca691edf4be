import StringReport.Layout.Grid
import StringReport.Layout.Style
import StringReport.Text.Columns

/-!
# Drawing on a terminal

A report is a sequence of blocks. Each is drawn by itself into lines, without regard to what
stands before it; a canvas says whether headings are shown and whether tones are painted.

Grids are drawn with one space on both sides of a cell, cells filled up to the width of
their column. Where no bar closes a line, the filling of the last cell is cut off again, and
nothing but the filling.
-/
namespace StringReport

/-- A part of a report. -/
inductive Block where
  /-- A line between two rules. -/
  | heading (text : String) (styled : Bool)
  /-- A label in a box, followed by a count. -/
  | subHeading (label : StyledText) (count : Nat)
  | grid {n : Nat} (grid : Grid n)
  | line (text : StyledText)
  | blank

/-- How blocks are drawn. -/
structure Canvas where
  headers : Bool
  colors : Bool
  deriving DecidableEq, Repr

/-! ## Tones -/

/-- The sequence that sets the style of a tone. -/
def Tone.style? : Tone → Option String
  | plain => none
  | accent => some "\x1b[36m"
  | value => some "\x1b[32m"

/-- The sequence that takes a style back. -/
def plainStyle : String := "\x1b[0m"

namespace Canvas

/-- A text in one tone. -/
def paintSpan (canvas : Canvas) (text : String) (tone : Tone) : String :=
  match tone.style? with
  | some style => if canvas.colors then style ++ text ++ plainStyle else text
  | none => text

/-- A styled text. -/
def paint (canvas : Canvas) (t : StyledText) : String :=
  String.join (t.spans.map fun span => canvas.paintSpan span.text span.tone)

/-- A styled text line by line, so that no style runs past the end of a line. -/
def paintLines (canvas : Canvas) (t : StyledText) : List String := t.lines.map canvas.paint

end Canvas

/-! ## Tables of painted cells -/

/-- A cell as the lines it is drawn with. -/
abbrev Cell := List String

/-- A cell of some lines. A single line stands as it is, whatever style it leaves on. -/
def Cell.ofLines (lines : List String) : Cell :=
  if lines.length ≤ 1 then lines else Style.plain.carry lines

/-- The cell of a plain text. -/
def Cell.ofText (text : String) : Cell := .ofLines (linesOf text)

/-- A text that takes the given width. -/
def fillTo (width : Nat) (s : String) : String := s ++ spaces (width - tableWidth s)

/-- The widths of two rows of columns taken together. -/
def widestOf (a b : List Nat) : List Nat := List.zipWith max a b

/-- The width of a cell: that of its widest line. -/
def cellWidth (cell : Cell) : Nat := ((cell.map tableWidth).max?).getD 0

/-- The widths of the columns of a table. -/
def columnWidths (n : Nat) (records : List (List Cell)) : List Nat :=
  (records.map (·.map cellWidth)).foldl widestOf (List.replicate n 0)

/-- The number of lines of a record: that of its tallest cell. -/
def recordHeight (record : List Cell) : Nat := ((record.map List.length).max?).getD 0

/-- One line of a record: the cells' texts on that line, filled to their columns. -/
def recordLine (widths : List Nat) (record : List Cell) (i : Nat) : List String :=
  List.zipWith (fun width cell => " " ++ fillTo width ((cell[i]?).getD "") ++ " ") widths record

/-- The lines of a record. -/
def recordLines (widths : List Nat) (record : List Cell) : List (List String) :=
  (List.range (recordHeight record)).map (recordLine widths record)

/-- The dashes of a rule, column by column. -/
def ruleParts (widths : List Nat) : List String :=
  widths.map fun width => String.ofList (List.replicate (width + 2) '-')

/-- A line with a bar between columns, and around them in a frame. -/
def joinLine (border : Border) (bar : String) (parts : List String) : String :=
  match border with
  | .framed => bar ++ bar.intercalate parts ++ bar
  | .inner => bar.intercalate parts

/-- The lines of a table, with a rule after the header, if there is one. A table without
columns has no lines. -/
def tableLines (border : Border) (n : Nat) (header : Option (List Cell))
    (rows : List (List Cell)) : List String :=
  if n = 0 then []
  else
    let widths := columnWidths n (header.toList ++ rows)
    let rule := joinLine border "+" (ruleParts widths)
    let draw (record : List Cell) := (recordLines widths record).map (joinLine border "|")
    let body := rows.flatMap draw
    match border, header with
    | .framed, some header =>
      rule :: draw header ++ rule :: (if rows.isEmpty then [] else body ++ [rule])
    | .framed, none => rule :: body ++ [rule]
    | .inner, some header => draw header ++ rule :: body
    | .inner, none => body

/-! ## Blocks -/

/-- A line without exactly the given number of spaces at its end; a line that does not end
in as many stays as it is. -/
def stripSpaces (count : Nat) (line : String) : String :=
  if (List.replicate count ' ').isSuffixOf line.toList then
    String.ofList (line.toList.take (line.length - count))
  else line

/-- Strip the filling of the last column from drawn lines, by the widths of the text that
stands there; a line for which none is known stays as it is. -/
def stripFilling (width : Nat) : List (Option Nat) → List String → List String
  | some used :: tails, line :: lines =>
    stripSpaces (width - used + 1) line :: stripFilling width tails lines
  | none :: tails, line :: lines => line :: stripFilling width tails lines
  | [], lines => lines
  | _ :: _, [] => []

namespace Canvas

/-- The cell of a styled text. -/
def paintCell (canvas : Canvas) (t : StyledText) : Cell := .ofLines (canvas.paintLines t)

/-- The lines of a grid. -/
def gridLines (canvas : Canvas) {n : Nat} (grid : Grid n) : List String :=
  if grid.isEmpty && !grid.showHeader then []
  else
    let header := if grid.showHeader then some (grid.columns.toList.map Cell.ofText) else none
    let rows := grid.rows.map fun row => row.toList.map canvas.paintCell
    let drawn := tableLines grid.border n header rows
    match grid.border with
    | .framed => drawn
    | .inner =>
      let tails := grid.lastColumnWidths displayWidth
      stripFilling ((tails.filterMap id).max?.getD 0) tails drawn

/-- The lines of a heading. -/
def headingLines (canvas : Canvas) (text : String) (styled : Bool) : List String :=
  let tone := if styled then Tone.accent else .plain
  let rule := canvas.paintSpan
    (" " ++ String.ofList (List.replicate (displayWidth text + 2) '─')) tone
  [rule, canvas.paintSpan ("  " ++ text) tone, rule, ""]

/-- The lines of a boxed label with a count. -/
def subHeadingLines (canvas : Canvas) (label : StyledText) (count : Nat) : List String :=
  let painted := canvas.paint (label.push (" (" ++ toString count ++ ")") .plain)
  tableLines .framed 1 none [[Cell.ofText painted]] ++ [""]

/-- The lines of a block. -/
def blockLines (canvas : Canvas) : Block → List String
  | .heading text styled => if canvas.headers then canvas.headingLines text styled else []
  | .subHeading label count => if canvas.headers then canvas.subHeadingLines label count else []
  | .grid grid => canvas.gridLines grid
  | .line text => [canvas.paint text]
  | .blank => [""]

/-- Blocks as text, each line ended by a line feed. -/
def draw (canvas : Canvas) (blocks : List Block) : String :=
  String.join ((blocks.flatMap canvas.blockLines).map fun line => line.push '\n')

end Canvas
end StringReport
