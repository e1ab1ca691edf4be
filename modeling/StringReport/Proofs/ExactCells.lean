import StringReport.Proofs.JoinedSections
import StringReport.Proofs.OpenTables
import StringReport.Proofs.PaintedLines

/-!
# Cells shown as they are

A cell whose only control characters are line feeds takes nothing from one of its lines to the
next, so a table of such cells is drawn line by line. Below what a console shows, a table without
a frame then reads as it is meant to, with all cells as they are, just if both measures leave the
same filling on each of its lines.
-/
namespace StringReport

/-! ## Cells of line feeds only -/

/-- A text with no control character but line feeds. -/
def FeedsOnly (text : List Char) : Prop := ∀ c ∈ text, Character.isControl c → c = '\n'

instance (text : List Char) : Decidable (FeedsOnly text) := List.decidableBAll _ text

/-- A line feed opens no sequence in either reading. -/
theorem FeedsOnly.isIntroducer {text : List Char} (h : FeedsOnly text) :
    ∀ c ∈ text, ControlSequence.isIntroducer c = false := by
  intro c hc
  rw [← Bool.not_eq_true]
  intro hintroducer
  have hcontrol : Character.isControl c := by
    simp only [ControlSequence.isIntroducer, Bool.or_eq_true, decide_eq_true_eq,
      beq_iff_eq] at hintroducer
    rcases hintroducer with rfl | hnumber
    · rfl
    · simp only [Character.isControl, hnumber]
      decide
  rw [h c hc hcontrol] at hintroducer
  cases hintroducer

/-- The lines of a grid with such cells are drawn each by itself, if its names stand on one line. -/
theorem Canvas.lineByLine_of_feedsOnly (canvas : Canvas) {n : Nat} {grid : Grid n}
    (hnames : grid.showHeader → ∀ name ∈ grid.columns.toList, '\n' ∉ name.toList)
    (hcells : ∀ row ∈ grid.rows, ∀ cell ∈ row.toList, FeedsOnly cell.toPlain.toList) :
    canvas.LineByLine grid where
  names hheader name hname := Cell.ofText_of_notMem (hnames hheader name hname)
  cells row hrow cell hcell := by
    refine canvas.paintCell_of_unescaped (StyledText.holds_iff.2 fun c hc => ?_)
    rintro rfl
    exact absurd (hcells row hrow cell hcell _ hc Character.isControl_escape) (by decide)

/-- Names stand on one line, and cells hold no control character but line feeds. -/
structure Grid.Lined {n : Nat} (grid : Grid n) : Prop where
  names : ∀ name ∈ grid.columns.toList, '\n' ∉ name.toList
  cells : ∀ row ∈ grid.rows, ∀ cell ∈ row.toList, FeedsOnly cell.toPlain.toList

theorem Grid.Lined.lineByLine {n : Nat} {grid : Grid n} (h : grid.Lined) (canvas : Canvas) :
    canvas.LineByLine grid := canvas.lineByLine_of_feedsOnly (fun _ => h.names) h.cells

namespace Canvas

variable (canvas : Canvas)

theorem paint_of_colorless (hcolors : canvas.colors = false) (t : StyledText) :
    canvas.paint t = t.toPlain := by
  have hspan (span : Span) : canvas.paintSpan span.text span.tone = span.text := by
    simp only [paintSpan, hcolors, Bool.false_eq_true, if_false]
    split <;> rfl
  rw [paint, List.map_congr_left fun span _ => hspan span, StyledText.toPlain]

/-- A cell that is drawn without colors, or in one tone. -/
def PlainOrSingle (cell : StyledText) : Prop :=
  canvas.colors = false ∨ ∃ tone text, cell = .single tone text

/-- Such a cell takes the columns of its text on each line. -/
theorem tableWidth_textAt {cell : StyledText} (hcell : canvas.PlainOrSingle cell)
    (h : ∀ c ∈ cell.toPlain.toList, ControlSequence.isIntroducer c = false) (j : Nat) :
    tableWidth (canvas.textAt cell j) = displayWidth (cell.plainAt j) := by
  rw [textAt, paintLines, List.getElem?_map, StyledText.plainAt]
  cases hline : cell.lines[j]? with
  | none => exact tableWidth_empty.trans displayWidth_empty.symm
  | some line =>
    have hmem := List.mem_of_getElem? hline
    have hholds := (StyledText.holds_iff.2 h).lines line hmem
    rw [StyledText.holds_iff] at hholds
    show tableWidth (canvas.paint line) = displayWidth line.toPlain
    rcases hcell with hcolors | ⟨tone, text, rfl⟩
    · rw [canvas.paint_of_colorless hcolors, tableWidth_eq_displayWidth hholds]
    · rw [StyledText.lines_single] at hmem
      obtain ⟨part, -, rfl⟩ := List.mem_map.1 hmem
      have htext : (StyledText.single tone part).toPlain = part := by
        rw [StyledText.single, StyledText.toPlain_push]
        exact String.empty_append
      rw [htext] at hholds ⊢
      exact canvas.tableWidth_paint_single tone hholds

/-- If the cells of the last column are all such, it is measured alike on each line. -/
theorem tableWidth_of_plainOrSingle {m : Nat} {grid : Grid (m + 1)}
    (hcells : ∀ row ∈ grid.rows, ∀ cell ∈ row.toList, FeedsOnly cell.toPlain.toList)
    (hlast : ∀ row ∈ grid.rows, canvas.PlainOrSingle (lastOf row)) :
    ∀ line ∈ grid.rowLines, tableWidth (canvas.textAt (lastOf line.1) line.2) =
      displayWidth ((lastOf line.1).plainAt line.2) := by
  intro line hline
  obtain ⟨row, hrow, hmem⟩ := List.mem_flatMap.1 hline
  obtain ⟨j, -, rfl⟩ := List.mem_map.1 hmem
  have hshown := (hcells row hrow _ (lastOf_mem row)).isIntroducer
  exact canvas.tableWidth_textAt (hlast row hrow) hshown j

end Canvas

/-! ## On a console -/

theorem LineProperty.openLine {P : List Char → Prop} (hP : LineProperty P) {widths : List Nat}
    {texts : List String} {last : String} (htexts : ∀ text ∈ texts, P text.toList)
    (hlast : P last.toList) : P (openLine widths texts last).toList := by
  rw [StringReport.openLine, String.toList_intercalate]
  refine hP.intercalate hP.bar fun part hpart => ?_
  rw [List.map_append, List.mem_append] at hpart
  rcases hpart with hpart | hpart
  · obtain ⟨closed, hclosed, rfl⟩ := List.mem_map.1 hpart
    obtain ⟨c, hc, rfl⟩ := List.mem_iff_getElem.1 hclosed
    simp only [closedParts, List.getElem_zipWith, String.toList_append]
    exact hP.append (hP.append hP.space (hP.fillTo (htexts _ (List.getElem_mem _)) _)) hP.space
  · rw [List.mem_singleton.1 hpart, String.toList_append]
    exact hP.append hP.space hlast

namespace Canvas

variable (canvas : Canvas) {m : Nat} {grid : Grid (m + 1)}

theorem newline_notMem_textAt (cell : StyledText) (j : Nat) :
    '\n' ∉ (canvas.textAt cell j).toList := by
  unfold textAt
  cases hline : (canvas.paintLines cell)[j]? with
  | none => simp
  | some painted =>
    obtain ⟨line, hmem, rfl⟩ := List.mem_map.1 (List.mem_of_getElem? hline)
    rw [Option.getD_some, ← lineFeeds_eq_zero, lineFeeds_paint]
    exact StyledText.lineFeeds_of_mem_lines hmem

theorem newline_notMem_lineOf {texts : Vector String (m + 1)}
    (h : ∀ text ∈ texts.toList, '\n' ∉ text.toList) : '\n' ∉ (canvas.lineOf grid texts).toList := by
  rw [toList_eq_concat, List.forall_mem_append, List.forall_mem_singleton] at h
  exact newline_lineProperty.openLine h.1 h.2

theorem newline_notMem_openLines (h : grid.Lined) :
    ∀ line ∈ canvas.openLines grid, '\n' ∉ line.toList := by
  have hnames : ∀ line ∈ (if grid.showHeader then
      [canvas.lineOf grid grid.columns,
        joinLine .inner "+" (ruleParts (List.ofFn (canvas.columnWidth grid)))]
      else []), '\n' ∉ line.toList := by
    split
    · exact List.forall_mem_cons.2 ⟨canvas.newline_notMem_lineOf h.names,
        List.forall_mem_singleton.2 (newline_lineProperty.rule .inner _)⟩
    · exact nofun
  refine List.forall_mem_append.2 ⟨hnames, fun line hline => ?_⟩
  obtain ⟨⟨row, j⟩, -, rfl⟩ := List.mem_map.1 hline
  apply canvas.newline_notMem_lineOf
  intro text htext
  rw [Vector.toList_map] at htext
  obtain ⟨cell, -, rfl⟩ := List.mem_map.1 htext
  exact canvas.newline_notMem_textAt cell j

end Canvas

/-- A table without a frame is drawn below what is there as it is meant to be, if and only if
both measures leave the same filling on each of its lines. -/
theorem Console.put_grid_eq_iff (console : Console) {m : Nat} {grid : Grid (m + 1)}
    (hborder : grid.border = .inner) (h : grid.Lined) :
    (console.put (.grid grid)).text =
        console.text ++ endedLines (console.canvas.openLines grid) ↔
      console.canvas.KnowsFilling grid := by
  have hdrawn := console.canvas.newline_notMem_gridLines grid
  have hmeant := console.canvas.newline_notMem_openLines h
  rw [← console.canvas.gridLines_eq_openLines_iff hborder (h.lineByLine _), put_eq,
    Canvas.draw_grid]
  constructor
  · intro htext
    exact endedLines_inj hdrawn hmeant (String.append_right_inj _ |>.1 htext)
  · intro hlines
    rw [hlines]

/-- A table whose last cells have more than one line and spaces at their ends. -/
def Grid.tidySample : Grid 2 where
  columns := #v["A", "B"]
  rows := [#v[.plain "x\ny", .value "a  \n"], #v[.plain "", .value "  "]]
  border := .inner

theorem Console.put_grid_eq_iff_tidySample :
    Grid.tidySample.border = .inner ∧ Grid.tidySample.Lined ∧
    Canvas.KnowsFilling ⟨true, true⟩ Grid.tidySample ∧
    (Console.put ⟨⟨true, true⟩, "above\n"⟩ (.grid Grid.tidySample)).text =
      "above\n" ++ endedLines [" A | B", "---+-----", " x | \x1b[32ma  \x1b[0m", " y | ",
        "   | \x1b[32m  \x1b[0m"] := by
  have hlined : Grid.tidySample.Lined := ⟨by decide, by decide⟩
  have hknows : Canvas.KnowsFilling ⟨true, true⟩ Grid.tidySample :=
    ⟨by decide, by decide⟩
  have hmeant : Canvas.openLines ⟨true, true⟩ Grid.tidySample = [" A | B", "---+-----",
      " x | \x1b[32ma  \x1b[0m", " y | ", "   | \x1b[32m  \x1b[0m"] := by
    decide +kernel
  have htext := (Console.put_grid_eq_iff ⟨⟨true, true⟩, "above\n"⟩ rfl hlined).2 hknows
  rw [hmeant] at htext
  exact ⟨rfl, hlined, hknows, htext⟩

/-- A table whose last name is measured in two ways. -/
def Grid.doubtfulSample : Grid 2 where
  columns := #v["A", "\x1b[5xabc"]
  rows := [#v[.plain "y", .plain "a  "]]
  border := .inner

/-- One of the two spaces at the end of a text is cut off with the filling. -/
theorem Console.put_grid_doubtfulSample_ne :
    Grid.doubtfulSample.border = .inner ∧ Grid.doubtfulSample.Lined ∧
    (Console.put ⟨⟨true, false⟩, ""⟩ (.grid Grid.doubtfulSample)).text =
      endedLines [" A | \x1b[5xabc", "---+-----", " y | a "] ∧
    endedLines (Canvas.openLines ⟨true, false⟩ Grid.doubtfulSample) =
      endedLines [" A | \x1b[5xabc", "---+-----", " y | a  "] ∧
    (Console.put ⟨⟨true, false⟩, ""⟩ (.grid Grid.doubtfulSample)).text ≠
      "" ++ endedLines (Canvas.openLines ⟨true, false⟩ Grid.doubtfulSample) := by
  have hlined : Grid.doubtfulSample.Lined := ⟨by decide, by decide⟩
  have hdrawn : Canvas.gridLines ⟨true, false⟩ Grid.doubtfulSample =
      [" A | \x1b[5xabc", "---+-----", " y | a "] := by
    decide +kernel
  have hmeant : Canvas.openLines ⟨true, false⟩ Grid.doubtfulSample =
      [" A | \x1b[5xabc", "---+-----", " y | a  "] := by
    decide +kernel
  rw [put_eq, Canvas.draw_grid, hdrawn, hmeant]
  exact ⟨rfl, hlined, String.empty_append, rfl, by decide +kernel⟩

/-- Without colors, or with a last column whose cells are of one tone each, every cell of a table
is shown as it is. The name over the last column must not be read as a sequence. -/
theorem Console.put_grid_of_plainOrSingle (console : Console) {m : Nat} {grid : Grid (m + 1)}
    (hborder : grid.border = .inner) (h : grid.Lined)
    (hname : grid.showHeader → ∀ c ∈ (lastOf grid.columns).toList,
      ControlSequence.isIntroducer c = false)
    (hcells : ∀ row ∈ grid.rows, console.canvas.PlainOrSingle (lastOf row)) :
    (console.put (.grid grid)).text =
      console.text ++ endedLines (console.canvas.openLines grid) := by
  have hknows : console.canvas.KnowsFilling grid :=
    Canvas.knowsFilling_of_measured (fun hheader => tableWidth_eq_displayWidth (hname hheader))
      (console.canvas.tableWidth_of_plainOrSingle h.cells hcells)
  rw [← console.canvas.gridLines_eq_openLines_iff hborder (h.lineByLine _)] at hknows
  rw [put_eq, Canvas.draw_grid, hknows]

end StringReport
