import StringReport.Proofs.OpenTables

/-!
# Tables of one line a row

Where both measures agree on every cell of a table without a frame, and no cell has more than
one line, each row is drawn with its last text as it is, and with nothing after it. The widths
of its columns are then those of the texts alone. The box of a label is a table of one cell,
which has nothing to fill.
-/
namespace StringReport

/-! ## Widest texts -/

/-- The widths of all columns but the last are taken apart from those of the last. -/
theorem foldl_widestOf_concat {α : Type} (init : α → List Nat) (last : α → Nat) {k : Nat}
    (items : List α) (hinit : ∀ item ∈ items, (init item).length = k) {start : List Nat}
    (hstart : start.length = k) (width : Nat) :
    (items.map fun item => init item ++ [last item]).foldl widestOf (start ++ [width]) =
      (items.map init).foldl widestOf start ++ [(items.map last).foldl max width] := by
  induction items generalizing start width with
  | nil => rfl
  | cons item items ih =>
    have hitem := hinit item List.mem_cons_self
    have hitems : ∀ other ∈ items, (init other).length = k := fun other hother =>
      hinit other (List.mem_cons_of_mem _ hother)
    have hwidest : widestOf (start ++ [width]) (init item ++ [last item]) =
        widestOf start (init item) ++ [max width (last item)] := by
      rw [widestOf, List.zipWith_append (by rw [hstart, hitem])]
      rfl
    simp only [List.map_cons, List.foldl_cons, hwidest]
    refine ih hitems ?_ _
    rw [widestOf, List.length_zipWith, hstart, hitem, Nat.min_self]

/-! ## Grids -/

/-- A cell of one line on whose columns the two readings agree. -/
structure Canvas.Measured (canvas : Canvas) (cell : StyledText) : Prop where
  oneLine : cell.lines = [cell]
  width : tableWidth (canvas.paint cell) = displayWidth cell.toPlain

theorem StyledText.Shown.measured {cell : StyledText} (h : cell.Shown) (canvas : Canvas) :
    canvas.Measured cell := by
  obtain @⟨tone, text, htext⟩ := h
  refine ⟨by rw [lines_single, linesOf_of_notMem htext.newline_notMem]; rfl, ?_⟩
  rw [canvas.tableWidth_paint_single tone htext.isIntroducer, StyledText.single, toPlain_push]
  exact congrArg displayWidth String.empty_append.symm

namespace Grid

variable {m : Nat} (grid : Grid (m + 1))

/-- The rows of a grid as they are drawn, the names of its columns first if they are shown. -/
def shownRows : List (Vector StyledText (m + 1)) :=
  (if grid.showHeader then [grid.columns.map .plain] else []) ++ grid.rows

/-- The widths of the columns but the last, by the texts alone. -/
def openWidths : List Nat :=
  (grid.shownRows.map fun row => row.pop.toList.map fun cell => displayWidth cell.toPlain).foldl
    widestOf (List.replicate m 0)

/-- The width of the last column, by the texts alone. -/
def lastWidth : Nat :=
  (grid.shownRows.map fun row => displayWidth row.back.toPlain).foldl max 0

end Grid

namespace Canvas

variable (canvas : Canvas) {m : Nat} {grid : Grid (m + 1)}

/-- The line of a row in a grid without a frame. -/
def openRow (grid : Grid (m + 1)) (row : Vector StyledText (m + 1)) : String :=
  openLine grid.openWidths (row.pop.toList.map canvas.paint) (canvas.paint row.back)

/-- The rule under the header of a grid without a frame. -/
def openRule (grid : Grid (m + 1)) : String :=
  joinLine .inner "+" (ruleParts (grid.openWidths ++ [grid.lastWidth]))

theorem paintLines_of_measured {cell : StyledText} (h : canvas.Measured cell) :
    canvas.paintLines cell = [canvas.paint cell] := by
  rw [paintLines, h.oneLine, List.map_singleton]

theorem paintCell_of_measured {cell : StyledText} (h : canvas.Measured cell) :
    canvas.paintCell cell = [canvas.paint cell] := by
  rw [paintCell, canvas.paintLines_of_measured h, Cell.ofLines_singleton]

theorem textAt_of_measured {cell : StyledText} (h : canvas.Measured cell) :
    canvas.textAt cell 0 = canvas.paint cell := by
  rw [textAt, canvas.paintLines_of_measured h]
  rfl

theorem plainAt_of_measured {cell : StyledText} (h : canvas.Measured cell) :
    cell.plainAt 0 = cell.toPlain := by
  rw [StyledText.plainAt, h.oneLine]
  rfl

theorem lineRecord_of_measured {row : Vector StyledText (m + 1)}
    (h : ∀ cell ∈ row.toList, canvas.Measured cell) :
    canvas.lineRecord row = row.toList.map fun cell => [canvas.paint cell] :=
  List.map_congr_left fun cell hcell => canvas.paintLines_of_measured (h cell hcell)

/-- Each row takes one line. -/
theorem rowLines_of_measured
    (h : ∀ row ∈ grid.rows, ∀ cell ∈ row.toList, canvas.Measured cell) :
    grid.rowLines = grid.rows.map fun row => (row, 0) := by
  rw [Grid.rowLines, List.map_eq_flatMap, List.flatMap_def, List.flatMap_def]
  refine congrArg List.flatten (List.map_congr_left fun row hrow => ?_)
  have hrecord : canvas.lineRecord row =
      (row.toList.map canvas.paint).map fun text => [text] := by
    rw [canvas.lineRecord_of_measured (h row hrow), List.map_map]
    rfl
  rw [← canvas.recordHeight_lineRecord, hrecord, recordHeight_singletons (by simp)]
  rfl

section Names

variable {name : String} (h : canvas.Measured (.plain name))
include h

theorem ofText_of_measured : Cell.ofText name = [name] := by
  rw [← canvas.paintCell_plain, canvas.paintCell_of_measured h, StyledText.plain_eq,
    paint_single_plain]

theorem tableWidth_of_measured : tableWidth name = displayWidth name := by
  have hwidth := h.width
  rwa [StyledText.toPlain_plain, StyledText.plain_eq, paint_single_plain] at hwidth

end Names

/-- A row of names is drawn as they are. -/
theorem map_paint_plain (names : Vector String (m + 1)) :
    (names.map .plain).map canvas.paint = names := by
  have hpaint : canvas.paint ∘ StyledText.plain = id := funext fun name => by
    rw [Function.comp_apply, StyledText.plain_eq, paint_single_plain, id]
  rw [Vector.map_map, hpaint, Vector.map_id]

section Rows

variable (h : ∀ row ∈ grid.shownRows, ∀ cell ∈ row.toList, canvas.Measured cell)
include h

theorem measured_rows : ∀ row ∈ grid.rows, ∀ cell ∈ row.toList, canvas.Measured cell :=
  fun row hrow => h row (List.mem_append_right _ hrow)

theorem measured_names (hheader : grid.showHeader) :
    ∀ name ∈ grid.columns.toList, canvas.Measured (.plain name) := by
  intro name hname
  have hfirst : grid.columns.map .plain ∈ grid.shownRows := by
    rw [Grid.shownRows, if_pos hheader]
    exact List.mem_cons_self
  refine h _ hfirst _ ?_
  rw [Vector.toList_map]
  exact List.mem_map_of_mem hname

theorem lineByLine_of_measured : canvas.LineByLine grid where
  names hheader name hname := canvas.ofText_of_measured (canvas.measured_names h hheader name hname)
  cells row hrow cell hcell := by
    have hmeasured := canvas.measured_rows h row hrow cell hcell
    rw [canvas.paintCell_of_measured hmeasured, canvas.paintLines_of_measured hmeasured]

theorem knowsFilling_of_measured_rows : canvas.KnowsFilling grid := by
  apply knowsFilling_of_measured
  · exact fun hheader => canvas.tableWidth_of_measured
      (canvas.measured_names h hheader _ (lastOf_mem _))
  · intro line hline
    rw [canvas.rowLines_of_measured (canvas.measured_rows h)] at hline
    obtain ⟨row, hrow, rfl⟩ := List.mem_map.1 hline
    have hlast := canvas.measured_rows h row hrow _ (lastOf_mem row)
    rw [canvas.textAt_of_measured hlast, canvas.plainAt_of_measured hlast, hlast.width]

/-- The columns are as wide as the texts alone take it. -/
theorem columnWidth_of_measured :
    List.ofFn (canvas.columnWidth grid) = grid.openWidths ++ [grid.lastWidth] := by
  have hrecords : (nameRecord? grid).toList ++ grid.rows.map canvas.lineRecord =
      grid.shownRows.map canvas.lineRecord := by
    rw [Grid.shownRows, List.map_append, nameRecord?]
    congr 1
    cases hheader : grid.showHeader with
    | false => rfl
    | true =>
      have hnames : canvas.lineRecord (grid.columns.map .plain) =
          grid.columns.toList.map fun name => [name] := by
        rw [lineRecord, Vector.toList_map, List.map_map]
        refine List.map_congr_left fun name hname => ?_
        have hmeasured := canvas.measured_names h hheader name hname
        rw [Function.comp_apply, canvas.paintLines_of_measured hmeasured, StyledText.plain_eq,
          paint_single_plain]
      simp [hnames]
  have hwidths : (grid.shownRows.map canvas.lineRecord).map (·.map cellWidth) =
      grid.shownRows.map fun row =>
        (row.pop.toList.map fun cell => displayWidth cell.toPlain) ++
          [displayWidth row.back.toPlain] := by
    rw [List.map_map]
    refine List.map_congr_left fun row hrow => ?_
    have hcells : (canvas.lineRecord row).map cellWidth =
        row.toList.map fun cell => displayWidth cell.toPlain := by
      rw [canvas.lineRecord_of_measured (h row hrow), List.map_map]
      exact List.map_congr_left fun cell hcell => (h row hrow cell hcell).width
    rw [Function.comp_apply, hcells, toList_eq_concat, List.map_append]
    rfl
  rw [← canvas.columnWidths_lineRecord, hrecords, columnWidths, hwidths, List.replicate_succ',
    foldl_widestOf_concat _ _ _ (k := m)]
  · rfl
  · simp
  · simp

theorem lineOf_map_paint (row : Vector StyledText (m + 1)) :
    canvas.lineOf grid (row.map canvas.paint) = canvas.openRow grid row := by
  have hwidths := canvas.columnWidth_of_measured h
  rw [List.ofFn_succ_last] at hwidths
  rw [lineOf, (List.append_inj' hwidths rfl).1, lastOf_map, ← Vector.map_pop, Vector.toList_map]
  rfl

end Rows

/-- A grid without a frame is drawn with one line for each row, and a rule after that of the
header. -/
theorem gridLines_of_measured (hborder : grid.border = .inner)
    (h : ∀ row ∈ grid.shownRows, ∀ cell ∈ row.toList, canvas.Measured cell) :
    canvas.gridLines grid =
      (if grid.showHeader then
        [canvas.openRow grid (grid.columns.map .plain), openRule grid] else []) ++
      grid.rows.map (canvas.openRow grid) := by
  have hlines := (canvas.gridLines_eq_openLines_iff hborder (canvas.lineByLine_of_measured h)).2
    (canvas.knowsFilling_of_measured_rows h)
  have hrows := canvas.measured_rows h
  have hbody : (grid.rowLines.map fun line =>
      canvas.lineOf grid (line.1.map fun cell => canvas.textAt cell line.2)) =
      grid.rows.map (canvas.openRow grid) := by
    rw [canvas.rowLines_of_measured hrows, List.map_map]
    refine List.map_congr_left fun row hrow => ?_
    have htexts : (row.map fun cell => canvas.textAt cell 0) = row.map canvas.paint := by
      refine Vector.map_congr_left fun cell hcell => ?_
      exact canvas.textAt_of_measured (hrows row hrow cell (by simpa using hcell))
    rw [Function.comp_apply, htexts, canvas.lineOf_map_paint h]
  have hname : canvas.lineOf grid grid.columns = canvas.openRow grid (grid.columns.map .plain) := by
    rw [← canvas.lineOf_map_paint h, map_paint_plain]
  rw [hlines, openLines, hbody, hname, canvas.columnWidth_of_measured h, openRule]

end Canvas

/-- A grid without a frame whose cells are shown on one line each. -/
structure Grid.Open {n : Nat} (grid : Grid n) : Prop where
  border : grid.border = .inner
  names : ∀ name ∈ grid.columns.toList, Inert name.toList
  cells : ∀ row ∈ grid.rows, ∀ cell ∈ row.toList, cell.Shown

theorem Grid.Open.shownRows {m : Nat} {grid : Grid (m + 1)} (h : grid.Open) :
    ∀ row ∈ grid.shownRows, ∀ cell ∈ row.toList, cell.Shown := by
  intro row hrow cell hcell
  rcases List.mem_append.1 hrow with hrow | hrow
  · split at hrow
    · rw [List.mem_singleton.1 hrow, Vector.toList_map] at hcell
      obtain ⟨name, hname, rfl⟩ := List.mem_map.1 hcell
      exact .single (h.names name hname)
    · cases hrow
  · exact h.cells row hrow cell hcell

namespace Canvas

variable (canvas : Canvas) {m : Nat} {grid : Grid (m + 1)}

theorem gridLines_of_open (h : grid.Open) :
    canvas.gridLines grid =
      (if grid.showHeader then
        [canvas.openRow grid (grid.columns.map .plain), openRule grid] else []) ++
      grid.rows.map (canvas.openRow grid) :=
  canvas.gridLines_of_measured h.border fun row hrow cell hcell =>
    (h.shownRows row hrow cell hcell).measured canvas

/-- The last text of a row stands in its line as it is painted. -/
theorem infix_openRow (grid : Grid (m + 1)) (row : Vector StyledText (m + 1)) :
    (canvas.paint row.back).toList <:+: (canvas.openRow grid row).toList := by
  have hpart : (" " ++ canvas.paint row.back).toList ∈
      (closedParts grid.openWidths (row.pop.toList.map canvas.paint) ++
        [" " ++ canvas.paint row.back]).map String.toList := by
    simp
  have hline := infix_intercalate hpart "|".toList
  rw [← String.toList_intercalate] at hline
  refine List.IsInfix.trans ?_ hline
  rw [String.toList_append]
  exact (List.suffix_append _ _).isInfix

/-! ## Boxed labels -/

/-- The rule above and below a boxed label. -/
def boxRule (width : Nat) : String := joinLine .framed "+" (ruleParts [width])

theorem subHeadingLines_eq {label : StyledText} {count : Nat}
    (h : '\n' ∉ (canvas.paint (label.push (" (" ++ toString count ++ ")") .plain)).toList) :
    canvas.subHeadingLines label count =
      let painted := canvas.paint (label.push (" (" ++ toString count ++ ")") .plain)
      [boxRule (tableWidth painted), "| " ++ painted ++ " |", boxRule (tableWidth painted),
        ""] := by
  simp only [subHeadingLines, Cell.ofText_of_notMem h]
  generalize canvas.paint (label.push (" (" ++ toString count ++ ")") .plain) = painted
  have hwidths : columnWidths 1 [[[painted]]] = [tableWidth painted] := by
    simp [columnWidths, cellWidth, widestOf]
  have hheight : recordHeight [[painted]] = 1 := rfl
  have hline : joinLine .framed "|" (recordLine [tableWidth painted] [[painted]] 0) =
      "| " ++ painted ++ " |" := by
    apply String.toList_inj.1
    simp [joinLine, recordLine, fillTo]
  simp [tableLines, hwidths, recordLines, hheight, hline, boxRule]

end Canvas
end StringReport
