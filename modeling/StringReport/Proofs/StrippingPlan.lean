import StringReport.Proofs.ExactCells

/-!
# The plan of the cut

A table without a frame is drawn with its last column filled, and the filling is cut off by a plan
that is made from the grid alone: line by line, how wide the last text is. The plan is in step with
the drawing if it has an entry for each of its lines.

The rows of a grid have as many entries as lines, whatever cell is their tallest. The header has one
entry, and one for its rule, so that the plan is in step only if no name has a second line. Behind
such a name each line is cut by the entry of another.
-/
namespace StringReport

/-! ## Lines of a drawing -/

/-- A line of a table without a frame: one of the header, the rule below it, or one of a row. -/
inductive GridLine (n : Nat) where
  | name (j : Nat)
  | rule
  | row (cells : Vector StyledText n) (j : Nat)

namespace Grid

theorem lineFeeds_lt_tallest {text : String} {texts : List String} (h : text ∈ texts) :
    lineFeeds text < tallest texts :=
  Nat.lt_of_succ_le (List.le_max?_getD_of_mem (List.mem_map_of_mem h))

/-- Texts stand on one line together just if each of them does. -/
theorem tallest_eq_one_iff {texts : List String} (hne : texts ≠ []) :
    tallest texts = 1 ↔ ∀ text ∈ texts, '\n' ∉ text.toList := by
  constructor
  · intro h text htext
    have hlt := lineFeeds_lt_tallest htext
    exact lineFeeds_eq_zero.1 (by omega)
  · intro h
    have hones : (texts.map fun text => lineFeeds text + 1) = List.replicate texts.length 1 := by
      refine List.eq_replicate_iff.2 ⟨List.length_map _, fun height hheight => ?_⟩
      obtain ⟨text, htext, rfl⟩ := List.mem_map.1 hheight
      rw [lineFeeds_eq_zero.2 (h text htext)]
    rw [tallest, hones, List.max?_replicate_of_pos (List.length_pos_iff.2 hne), Option.getD_some]

/-- The lines of the drawing, from top to bottom: for the header as many as its tallest name has,
for a row as many as its tallest cell. -/
def drawnLines {n : Nat} (grid : Grid n) : List (GridLine n) :=
  (if grid.showHeader then
    (List.range (tallest grid.columns.toList)).map .name ++ [.rule]
  else []) ++
  grid.rowLines.map fun line => .row line.1 line.2

variable {m : Nat} (grid : Grid (m + 1))

/-- The text of the last column on a line, without tones. The rule has none. -/
def lastText? : GridLine (m + 1) → Option String
  | .name j => some ((linesOf (lastOf grid.columns))[j]?.getD "")
  | .rule => none
  | .row cells j => some ((lastOf cells).plainAt j)

/-- The plan has one entry for each line of the drawing just if all names that are shown stand on
one line. -/
theorem lastColumnWidths_eq_map_iff :
    grid.lastColumnWidths displayWidth =
        (grid.drawnLines.map fun line => (grid.lastText? line).map displayWidth) ↔
      (grid.showHeader → ∀ name ∈ grid.columns.toList, '\n' ∉ name.toList) := by
  have hrows : (grid.rowLines.map fun line => GridLine.row line.1 line.2).map (fun line =>
      (grid.lastText? line).map displayWidth) =
      grid.rowLines.map fun line => some (displayWidth ((lastOf line.1).plainAt line.2)) := by
    rw [List.map_map]
    rfl
  have hne : grid.columns.toList ≠ [] := by
    rw [toList_eq_concat]
    simp
  rw [Canvas.lastColumnWidths_eq, drawnLines, List.map_append, hrows]
  cases hheader : grid.showHeader with
  | false => simp
  | true =>
    simp only [if_true, List.append_left_inj, forall_const, ← tallest_eq_one_iff hne]
    constructor
    · intro h
      have hlength := congrArg List.length h
      simp only [List.length_map, List.length_append, List.length_range, List.length_cons,
        List.length_nil] at hlength
      omega
    · intro htallest
      have hname := linesOf_of_notMem ((tallest_eq_one_iff hne).1 htallest _ (lastOf_mem _))
      simp [htallest, lastText?, hname]

end Grid

/-! ## The drawing -/

namespace Canvas

variable (canvas : Canvas)

section Records

variable {n : Nat} (grid : Grid n)

/-- The names of a grid as a record. -/
def nameRecord : List Cell := grid.columns.toList.map Cell.ofText

/-- A row of a grid as a record. -/
def rowRecord (cells : Vector StyledText n) : List Cell := cells.toList.map canvas.paintCell

/-- The widths that the columns of a grid are drawn with. -/
def drawnWidths : List Nat :=
  columnWidths n ((if grid.showHeader then [nameRecord grid] else []) ++
    grid.rows.map canvas.rowRecord)

/-- A line as it is drawn, with all its columns filled. -/
def filledLine : GridLine n → String
  | .name j => joinLine .inner "|" (recordLine (canvas.drawnWidths grid) (nameRecord grid) j)
  | .rule => joinLine .inner "+" (ruleParts (canvas.drawnWidths grid))
  | .row cells j =>
    joinLine .inner "|" (recordLine (canvas.drawnWidths grid) (canvas.rowRecord cells) j)

/-- A table is drawn with the lines of its grid, one after the other. -/
theorem tableLines_eq (hn : n ≠ 0) :
    tableLines .inner n (if grid.showHeader then some (nameRecord grid) else none)
        (grid.rows.map canvas.rowRecord) =
      grid.drawnLines.map (canvas.filledLine grid) := by
  have hbody : (grid.rows.map canvas.rowRecord).flatMap (fun record =>
      (recordLines (canvas.drawnWidths grid) record).map (joinLine .inner "|")) =
      (grid.rowLines.map fun line => GridLine.row line.1 line.2).map
        (canvas.filledLine grid) := by
    simp only [Grid.rowLines, recordLines, rowRecord, recordHeight_paintCell, List.flatMap_map,
      List.map_flatMap, List.map_map]
    rfl
  have hnames : (recordLines (canvas.drawnWidths grid) (nameRecord grid)).map
      (joinLine .inner "|") =
      ((List.range (Grid.tallest grid.columns.toList)).map GridLine.name).map
        (canvas.filledLine grid) := by
    simp only [recordLines, nameRecord, recordHeight_ofText, List.map_map]
    rfl
  have hwidths : columnWidths n ((if grid.showHeader then some (nameRecord grid)
      else none).toList ++ grid.rows.map canvas.rowRecord) = canvas.drawnWidths grid := by
    rw [drawnWidths]
    cases grid.showHeader <;> rfl
  simp only [tableLines, hn, if_false, hwidths]
  rw [Grid.drawnLines, List.map_append, ← hbody]
  cases grid.showHeader with
  | false => rfl
  | true =>
    simp only [if_true, List.map_append, ← hnames, List.append_assoc]
    rfl

end Records

variable {m : Nat} (grid : Grid (m + 1))

/-- The width that the last column of a grid is drawn with. -/
def lastWidth : Nat := (canvas.drawnWidths grid).getLast?.getD 0

/-- A table is cut line by line, where the lines are as the grid has them and the plan is made apart
from them. -/
theorem gridLines_eq_stripFilling (hborder : grid.border = .inner) :
    canvas.gridLines grid =
      stripFilling (((grid.lastColumnWidths displayWidth).filterMap id).max?.getD 0)
        (grid.lastColumnWidths displayWidth) (grid.drawnLines.map (canvas.filledLine grid)) := by
  cases hempty : grid.isEmpty && !grid.showHeader with
  | true =>
    obtain ⟨hrows, hheader⟩ := grid.hidden_iff.1 hempty
    rw [gridLines, if_pos hempty]
    simp [Grid.drawnLines, Grid.rowLines, lastColumnWidths_eq, hheader, hrows, stripFilling]
  | false =>
    rw [canvas.gridLines_inner hborder hempty, ← canvas.tableLines_eq grid (Nat.succ_ne_zero m)]
    rfl

/-- The plan of a grid is in step with its drawing: it has one entry for each line, in order, which
is the width of the last text there, and the largest of them is the width of the last column. -/
structure InStep : Prop where
  entries : grid.lastColumnWidths displayWidth =
    grid.drawnLines.map fun line => (grid.lastText? line).map displayWidth
  widest : (((grid.lastColumnWidths displayWidth).filterMap id).max?).getD 0 =
    canvas.lastWidth grid

variable {grid}

theorem lastWidth_of_lineByLine (h : canvas.LineByLine grid) :
    canvas.lastWidth grid = canvas.columnWidth grid (Fin.last m) := by
  have hnames : (if grid.showHeader then [nameRecord grid] else []) =
      (nameRecord? grid).toList := by
    rw [← h.names_eq]
    cases grid.showHeader <;> rfl
  have hrows : grid.rows.map canvas.rowRecord = grid.rows.map canvas.lineRecord := h.rows_eq
  rw [lastWidth, drawnWidths, hnames, hrows, columnWidths_lineRecord, List.ofFn_succ_last,
    List.getLast?_concat, Option.getD_some]

/-- The plan of a grid is in step with its drawing just if the names that are shown stand on one
line each, and the widest text of the last column is as wide for a table as it is elsewhere. The
latter holds if the name over that column is not read as a sequence, and its cells are drawn without
colors or in one tone each. -/
theorem inStep_iff
    (hcells : ∀ row ∈ grid.rows, ∀ cell ∈ row.toList, FeedsOnly cell.toPlain.toList) :
    canvas.gridLines { grid with border := .inner } =
        stripFilling (((grid.lastColumnWidths displayWidth).filterMap id).max?.getD 0)
          (grid.lastColumnWidths displayWidth) (grid.drawnLines.map (canvas.filledLine grid)) ∧
      (canvas.InStep grid ↔
        (grid.showHeader → ∀ name ∈ grid.columns.toList, '\n' ∉ name.toList) ∧
          grid.plainWidth = canvas.columnWidth grid (Fin.last m)) ∧
      ((grid.showHeader → ∀ c ∈ (lastOf grid.columns).toList,
          ControlSequence.isIntroducer c = false) →
        (∀ row ∈ grid.rows, canvas.PlainOrSingle (lastOf row)) →
        grid.plainWidth = canvas.columnWidth grid (Fin.last m)) := by
  have hlastWidth (hnames : grid.showHeader → ∀ name ∈ grid.columns.toList,
      '\n' ∉ name.toList) :=
    canvas.lastWidth_of_lineByLine (canvas.lineByLine_of_feedsOnly hnames hcells)
  refine ⟨?_, ⟨fun h => ?_, fun ⟨hnames, hwidth⟩ => ?_⟩, fun hname hlast => ?_⟩
  · exact canvas.gridLines_eq_stripFilling { grid with border := .inner } rfl
  · have hnames := grid.lastColumnWidths_eq_map_iff.1 h.entries
    refine ⟨hnames, ?_⟩
    rw [← hlastWidth hnames, ← h.widest, max?_lastColumnWidths_eq]
  · refine ⟨grid.lastColumnWidths_eq_map_iff.2 hnames, ?_⟩
    rw [max?_lastColumnWidths_eq, hwidth, hlastWidth hnames]
  · exact plainWidth_eq_columnWidth
      (fun hheader => tableWidth_eq_displayWidth (hname hheader))
      (canvas.tableWidth_of_plainOrSingle hcells hlast)

end Canvas

/-- A table whose rows differ in height, with line feeds at the end of a cell. -/
def Grid.unevenSample : Grid 2 where
  columns := #v["K", "V"]
  rows := [#v[.plain "x\ny\nz", .value "v  \n"], #v[.accent "", .plain "w"]]

/-- A table with a name of two lines. -/
def Grid.stackedSample : Grid 2 where
  columns := #v["A\nB", "V"]
  rows := [#v[.plain "x", .value "v    "], #v[.plain "y", .value "w"]]

namespace Canvas

theorem inStep_unevenSample :
    (∀ row ∈ Grid.unevenSample.rows, ∀ cell ∈ row.toList, FeedsOnly cell.toPlain.toList) ∧
    InStep ⟨true, true⟩ Grid.unevenSample ∧
    Grid.unevenSample.lastColumnWidths displayWidth =
      [some 1, none, some 3, some 0, some 0, some 1] ∧
    lastWidth ⟨true, true⟩ Grid.unevenSample = 3 := by
  have hcells : ∀ row ∈ Grid.unevenSample.rows, ∀ cell ∈ row.toList,
      FeedsOnly cell.toPlain.toList := by decide
  have hnames : Grid.unevenSample.showHeader →
      ∀ name ∈ Grid.unevenSample.columns.toList, '\n' ∉ name.toList := by decide
  have hlast : ∀ row ∈ Grid.unevenSample.rows, PlainOrSingle ⟨true, true⟩ (lastOf row) := by
    refine List.forall_mem_cons.2 ⟨.inr ⟨.value, "v  \n", rfl⟩, ?_⟩
    exact List.forall_mem_singleton.2 (.inr ⟨.plain, "w", rfl⟩)
  obtain ⟨-, hinStep, hmeasured⟩ := inStep_iff ⟨true, true⟩ hcells
  have hplan : Grid.unevenSample.lastColumnWidths displayWidth =
      [some 1, none, some 3, some 0, some 0, some 1] := by decide +kernel
  have hname : FeedsOnly (lastOf Grid.unevenSample.columns).toList := by decide
  have h := hinStep.2 ⟨hnames, hmeasured (fun _ => hname.isIntroducer) hlast⟩
  refine ⟨hcells, h, hplan, ?_⟩
  rw [← h.widest, hplan]
  rfl

/-- The second line of the header is left filled, and the spaces at the end of a cell are cut off
by the entry of the row below it. -/
theorem not_inStep_stackedSample :
    (∀ name ∈ Grid.stackedSample.columns.toList, FeedsOnly name.toList) ∧
    (∀ row ∈ Grid.stackedSample.rows, ∀ cell ∈ row.toList, FeedsOnly cell.toPlain.toList) ∧
    Grid.stackedSample.lastColumnWidths displayWidth = [some 1, none, some 5, some 1] ∧
    (Grid.stackedSample.drawnLines.map fun line =>
        (Grid.stackedSample.lastText? line).map displayWidth) =
      [some 1, some 0, none, some 5, some 1] ∧
    gridLines ⟨true, false⟩ { Grid.stackedSample with border := .inner } =
      [" A | V", " B |       ", "---+-------", " x | v", " y | w     "] ∧
    ¬ InStep ⟨true, false⟩ Grid.stackedSample := by
  have hplan : Grid.stackedSample.lastColumnWidths displayWidth =
      [some 1, none, some 5, some 1] := by decide +kernel
  have hdrawn : (Grid.stackedSample.drawnLines.map fun line =>
      (Grid.stackedSample.lastText? line).map displayWidth) =
      [some 1, some 0, none, some 5, some 1] := by decide +kernel
  refine ⟨by decide, by decide, hplan, hdrawn, by decide +kernel, fun h => ?_⟩
  have hentries := h.entries
  rw [hplan, hdrawn] at hentries
  cases hentries

end Canvas
end StringReport
