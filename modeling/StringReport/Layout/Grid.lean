import StringReport.Layout.StyledText

/-!
# Grids

A grid has named columns and rows with one cell for each of them. A row of another size is
refused, so that every row of a grid fits its columns.
-/
namespace StringReport

/-- The lines around the cells of a grid. -/
inductive Border where
  /-- A frame around all, and bars between columns. -/
  | framed
  /-- Bars between columns only. -/
  | inner
  deriving DecidableEq, Repr, Inhabited

/-- A grid of `n` columns. -/
structure Grid (n : Nat) where
  columns : Vector String n
  rows : List (Vector StyledText n) := []
  showHeader : Bool := true
  border : Border := .framed
  deriving DecidableEq, Repr

/-- A row that does not fit the columns of its grid. -/
structure ArityMismatch where
  expected : Nat
  found : Nat
  deriving DecidableEq, Repr

namespace Grid

variable {n : Nat}

/-- A row of the given cells, if they fit. -/
def row? (n : Nat) (cells : List StyledText) : Except ArityMismatch (Vector StyledText n) :=
  if h : cells.length = n then .ok ⟨cells.toArray, by simpa using h⟩
  else .error ⟨n, cells.length⟩

/-- A grid with one more row. -/
def push (grid : Grid n) (row : Vector StyledText n) : Grid n :=
  { grid with rows := grid.rows ++ [row] }

/-- A grid with one more row, if the cells fit. -/
def pushCells (grid : Grid n) (cells : List StyledText) : Except ArityMismatch (Grid n) :=
  (row? n cells).map grid.push

def size (grid : Grid n) : Nat := grid.rows.length

def isEmpty (grid : Grid n) : Bool := grid.rows.isEmpty

/-- The columns that the last cell of a row takes on each line of the row. -/
def lastCellWidths (width : String → Nat) (row : Vector StyledText n) : List Nat :=
  let height := ((row.toList.map fun cell => cell.lines.length).max?).getD 1
  let last := (row.toList.getLast?.map StyledText.lines).getD []
  (List.range height).map fun i => ((last[i]?).map fun line => width line.toPlain).getD 0

/-- The width of the last column's text on each line that the grid is drawn with; the rule
under the header has none. -/
def lastColumnWidths (width : String → Nat) (grid : Grid n) : List (Option Nat) :=
  (if grid.showHeader then [some (width (grid.columns.toList.getLast?.getD "")), none] else []) ++
    grid.rows.flatMap fun row => (lastCellWidths width row).map some

@[simp] theorem rows_push (grid : Grid n) (row : Vector StyledText n) :
    (grid.push row).rows = grid.rows ++ [row] := rfl

@[simp] theorem size_push (grid : Grid n) (row : Vector StyledText n) :
    (grid.push row).size = grid.size + 1 := by simp [size]

end Grid
end StringReport
