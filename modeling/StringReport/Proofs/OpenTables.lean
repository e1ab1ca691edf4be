import StringReport.Proofs.BlockHeights
import StringReport.Proofs.PaintedWidths

/-!
# Tables without a frame

What a table without a frame is meant to be: each row takes the lines of its tallest cell, each
text is filled to the width of its column and closed with a bar, and the last text of a line
stands open, just as it is. The table is drawn with the last column filled as well, and by how
much is found out a second time, from the texts as they are measured outside of tables.

So a line is as meant just if both measures leave the same filling on it. They do if the texts
of the last column are measured alike.
-/
namespace StringReport

/-! ## Lines -/

/-- The texts of a line but the last, each filled to its column. -/
def closedParts (widths : List Nat) (texts : List String) : List String :=
  List.zipWith (fun width text => " " ++ fillTo width text ++ " ") widths texts

theorem recordHeight_singletons {texts : List String} (h : texts ≠ []) :
    recordHeight (texts.map fun text => [text]) = 1 := by
  have hones : (texts.map fun text => [text]).map List.length =
      List.replicate texts.length 1 := by
    simp [List.eq_replicate_iff]
  rw [recordHeight, hones, List.max?_replicate_of_pos (List.length_pos_iff.2 h)]
  rfl

/-- A record of one line is drawn with one line. -/
theorem recordLines_singletons {texts : List String} (h : texts ≠ []) (widths : List Nat) :
    recordLines widths (texts.map fun text => [text]) = [closedParts widths texts] := by
  rw [recordLines, recordHeight_singletons h]
  simp [recordLine, closedParts, List.zipWith_map_right]

/-- A line with bars between texts, each filled to its column but for the last one. -/
def openLine (widths : List Nat) (texts : List String) (last : String) : String :=
  "|".intercalate (closedParts widths texts ++ [" " ++ last])

theorem intercalate_concat_append {α : Type} (separator : List α) (parts : List (List α))
    (a b : List α) :
    separator.intercalate (parts ++ [a ++ b]) = separator.intercalate (parts ++ [a]) ++ b := by
  induction parts with
  | nil => simp
  | cons part parts ih =>
    cases parts with
    | nil => simp [List.intercalate_cons_cons]
    | cons next parts =>
      simp only [List.cons_append, List.intercalate_cons_cons] at ih ⊢
      rw [ih]
      simp only [List.append_assoc]

theorem stripSpaces_append_spaces (line : String) (count : Nat) :
    stripSpaces count (line ++ spaces count) = line := by
  have hlength : (line ++ spaces count).length - count = line.toList.length := by
    simp [String.length_append, spaces, String.length_toList]
  rw [stripSpaces, if_pos (by simp), hlength, String.toList_append, List.take_left,
    String.ofList_toList]

/-- Filling the last column as well puts spaces after a line. -/
theorem intercalate_closedParts {widths : List Nat} {texts : List String}
    (hlength : widths.length = texts.length) (width : Nat) (last : String) :
    "|".intercalate (closedParts (widths ++ [width]) (texts ++ [last])) =
      openLine widths texts last ++ spaces (width - tableWidth last + 1) := by
  have hspaces : spaces (width - tableWidth last + 1) =
      spaces (width - tableWidth last) ++ " " := by
    apply String.toList_inj.1
    simp [List.replicate_succ']
  apply String.toList_inj.1
  rw [closedParts, List.zipWith_append hlength, openLine, hspaces, String.toList_append,
    String.toList_intercalate, String.toList_intercalate, ← closedParts]
  simp only [List.zipWith_cons_cons, List.zipWith_nil_left, List.map_append, List.map_cons,
    List.map_nil, fillTo, String.toList_append]
  rw [← intercalate_concat_append]
  simp only [List.append_assoc]

/-- What is cut off is the filling just if it is as long. -/
theorem stripSpaces_append_spaces_iff (line : String) (filled cut : Nat) :
    stripSpaces (cut + 1) (line ++ spaces (filled + 1)) = line ↔ cut = filled := by
  constructor
  · intro h
    have hlength := congrArg String.length h
    unfold stripSpaces at hlength
    split at hlength
    · next hsuffix =>
      have hle := (List.isSuffixOf_iff_suffix.1 hsuffix).length_le
      simp only [List.length_replicate, String.toList_append, toList_spaces,
        List.length_append, String.length_toList, String.length_append, String.length_ofList,
        List.length_take, ← String.length_toList (s := spaces _)] at hle hlength
      omega
    · simp [String.length_append, spaces] at hlength
  · rintro rfl
    exact stripSpaces_append_spaces line (cut + 1)

theorem stripFilling_map {α : Type} (items : List α) (used : α → Nat) (line : α → String)
    (width : Nat) :
    stripFilling width (items.map fun item => some (used item)) (items.map line) =
      items.map fun item => stripSpaces (width - used item + 1) (line item) := by
  induction items with
  | nil => rfl
  | cons item items ih => simp only [List.map_cons, stripFilling, ih]

/-! ## Widest texts -/

theorem max?_getD_eq_foldl (widths : List Nat) : widths.max?.getD 0 = widths.foldl max 0 := by
  cases widths with
  | nil => rfl
  | cons width widths =>
    rw [List.max?_cons', Option.getD_some, List.foldl_cons, Nat.zero_max]

theorem getElem_foldl_widestOf {rows : List (List Nat)} {n : Nat}
    (h : ∀ row ∈ rows, row.length = n) {start : List Nat} (hstart : start.length = n) {c : Nat}
    (hc : c < n) (hc' : c < (rows.foldl widestOf start).length) :
    (rows.foldl widestOf start)[c] =
      (rows.map fun row => row[c]?.getD 0).foldl max (start[c]?.getD 0) := by
  induction rows generalizing start with
  | nil =>
    rw [List.getElem?_eq_getElem (by omega)]
    rfl
  | cons row rows ih =>
    obtain ⟨hrow, hrows⟩ := List.forall_mem_cons.1 h
    have hlength : (widestOf start row).length = n := by
      rw [widestOf, List.length_zipWith, hstart, hrow, Nat.min_self]
    have hwidest : (widestOf start row)[c]?.getD 0 = max (start[c]?.getD 0) (row[c]?.getD 0) := by
      have hcstart : c < start.length := by omega
      have hcrow : c < row.length := by omega
      simp only [widestOf, List.getElem?_zipWith, List.getElem?_eq_getElem hcstart,
        List.getElem?_eq_getElem hcrow]
      rfl
    simp only [List.foldl_cons, ih hrows hlength, hwidest, List.map_cons]

/-- A column is as wide as the widest of its cells. -/
theorem getElem_columnWidths {n : Nat} {records : List (List Cell)}
    (h : ∀ record ∈ records, record.length = n) {c : Nat} (hc : c < n)
    (hc' : c < (columnWidths n records).length) :
    (columnWidths n records)[c] =
      (records.map fun record => cellWidth (record[c]?.getD [])).foldl max 0 := by
  have hwidths : ∀ widths ∈ records.map (·.map cellWidth), widths.length = n := by
    intro widths hwidths
    obtain ⟨record, hrecord, rfl⟩ := List.mem_map.1 hwidths
    rw [List.length_map, h record hrecord]
  have hcell (record : List Cell) : (record.map cellWidth)[c]?.getD 0 =
      cellWidth (record[c]?.getD []) := by
    rw [List.getElem?_map]
    cases record[c]? with
    | none => rfl
    | some cell => rfl
  simp only [columnWidths]
  rw [getElem_foldl_widestOf hwidths List.length_replicate hc, List.map_map,
    List.getElem?_replicate_of_lt hc]
  simp only [Function.comp_def, hcell]
  rfl

theorem foldl_max_flatMap {α : Type} (f : α → List Nat) (items : List α) (start : Nat) :
    (items.flatMap f).foldl max start =
      (items.map fun item => (f item).foldl max 0).foldl max start := by
  induction items generalizing start with
  | nil => rfl
  | cons item items ih =>
    have hfirst := @List.foldl_assoc Nat max _ (f item) start 0
    rw [Nat.max_zero] at hfirst
    rw [List.flatMap_cons, List.foldl_append, ih, hfirst, List.map_cons, List.foldl_cons]

/-! ## Last entries -/

/-- The last entry of a row. -/
def lastOf {α : Type} {m : Nat} (row : Vector α (m + 1)) : α := row.get (Fin.last m)

section Rows

variable {α : Type} {m : Nat} (row : Vector α (m + 1))

theorem lastOf_eq_back : lastOf row = row.back := rfl

theorem getElem_last : row[(Fin.last m : Fin (m + 1))] = lastOf row := rfl

theorem toList_eq_concat : row.toList = row.pop.toList ++ [lastOf row] := by
  rw [lastOf_eq_back, ← Vector.toList_push]
  simp

theorem getLast?_toList : row.toList.getLast? = some (lastOf row) := by
  rw [toList_eq_concat, List.getLast?_concat]

theorem lastOf_mem : lastOf row ∈ row.toList := List.mem_of_getLast? (getLast?_toList row)

theorem lastOf_map {β : Type} (f : α → β) : lastOf (row.map f) = f (lastOf row) := by
  rw [lastOf_eq_back, lastOf_eq_back]
  simp [Vector.back]

end Rows

/-! ## What is meant -/

/-- The text of a cell on a line of its row, without tones; a cell of fewer lines has none. -/
def StyledText.plainAt (cell : StyledText) (j : Nat) : String :=
  ((cell.lines[j]?).map toPlain).getD ""

/-- A grid of which nothing is drawn. -/
theorem Grid.hidden_iff {n : Nat} (grid : Grid n) :
    (grid.isEmpty && !grid.showHeader) = true ↔ grid.rows = [] ∧ grid.showHeader = false := by
  simp [isEmpty]

/-- The lines that the rows of a grid take: of each row those of its tallest cell. -/
def Grid.rowLines {n : Nat} (grid : Grid n) : List (Vector StyledText n × Nat) :=
  grid.rows.flatMap fun row => (List.range (rowHeight row)).map fun j => (row, j)

namespace Canvas

variable (canvas : Canvas)

/-- The text of a cell on a line of its row, painted. -/
def textAt (cell : StyledText) (j : Nat) : String := ((canvas.paintLines cell)[j]?).getD ""

/-- The texts of a column, line by line. -/
def columnTexts {n : Nat} (grid : Grid n) (c : Fin n) : List String :=
  (if grid.showHeader then [grid.columns[c]] else []) ++
    grid.rows.flatMap fun row => canvas.paintLines row[c]

/-- The width of a column: that of its widest text. -/
def columnWidth {n : Nat} (grid : Grid n) (c : Fin n) : Nat :=
  (((canvas.columnTexts grid c).map tableWidth).max?).getD 0

variable {m : Nat} (grid : Grid (m + 1))

/-- A line of texts, each filled to its column but for the last one. -/
def lineOf (texts : Vector String (m + 1)) : String :=
  openLine (List.ofFn fun c : Fin m => canvas.columnWidth grid c.castSucc) texts.pop.toList
    (lastOf texts)

/-- The lines of a grid without a frame, as they are meant to be. -/
def openLines : List String :=
  (if grid.showHeader then
    [canvas.lineOf grid grid.columns,
      joinLine .inner "+" (ruleParts (List.ofFn (canvas.columnWidth grid)))]
  else []) ++
  grid.rowLines.map fun line =>
    canvas.lineOf grid (line.1.map fun cell => canvas.textAt cell line.2)

end Canvas

/-- The width of the last column, as it is found out from plain texts. -/
def Grid.plainWidth {m : Nat} (grid : Grid (m + 1)) : Nat :=
  (((if grid.showHeader then [displayWidth (lastOf grid.columns)] else []) ++
    grid.rowLines.map fun line => displayWidth ((lastOf line.1).plainAt line.2)).max?).getD 0

/-- Both measures leave the same filling on each line. -/
structure Canvas.KnowsFilling (canvas : Canvas) {m : Nat} (grid : Grid (m + 1)) : Prop where
  name : grid.showHeader →
    grid.plainWidth - displayWidth (lastOf grid.columns) =
      canvas.columnWidth grid (Fin.last m) - tableWidth (lastOf grid.columns)
  text : ∀ line ∈ grid.rowLines,
    grid.plainWidth - displayWidth ((lastOf line.1).plainAt line.2) =
      canvas.columnWidth grid (Fin.last m) - tableWidth (canvas.textAt (lastOf line.1) line.2)

/-! ## Tables of lines -/

/-- The lines of a grid are drawn each by itself: names stand on one line, and no style is carried
from one line of a cell to the next. -/
structure Canvas.LineByLine (canvas : Canvas) {n : Nat} (grid : Grid n) : Prop where
  names : grid.showHeader → ∀ name ∈ grid.columns.toList, Cell.ofText name = [name]
  cells : ∀ row ∈ grid.rows, ∀ cell ∈ row.toList, canvas.paintCell cell = canvas.paintLines cell

namespace Canvas

variable (canvas : Canvas)

section Records

variable {n : Nat} (grid : Grid n)

/-- The header of a grid as a record, if it is shown. -/
def nameRecord? : Option (List Cell) :=
  if grid.showHeader then some (grid.columns.toList.map fun name => [name]) else none

/-- A row as a record, each line as it is painted. -/
def lineRecord (row : Vector StyledText n) : List Cell := row.toList.map canvas.paintLines

/-- Each column of a table is as wide as its widest text. -/
theorem columnWidths_lineRecord :
    columnWidths n ((nameRecord? grid).toList ++ grid.rows.map canvas.lineRecord) =
      List.ofFn (canvas.columnWidth grid) := by
  have hrecords : ∀ record ∈ (nameRecord? grid).toList ++ grid.rows.map canvas.lineRecord,
      record.length = n := by
    intro record hrecord
    rcases List.mem_append.1 hrecord with hrecord | hrecord
    · unfold nameRecord? at hrecord
      split at hrecord
      · rw [List.mem_singleton.1 hrecord]
        simp
      · cases hrecord
    · obtain ⟨row, -, rfl⟩ := List.mem_map.1 hrecord
      simp [lineRecord]
  have hlength := length_columnWidths hrecords
  refine List.ext_getElem (by rw [hlength, List.length_ofFn]) fun c hc hc' => ?_
  have hcn : c < n := hlength ▸ hc
  have hrow (row : Vector StyledText n) :
      (canvas.lineRecord row)[c]?.getD [] = canvas.paintLines row[c] := by
    simp [lineRecord, hcn]
  have hcell (cell : Cell) : cellWidth cell = (cell.map tableWidth).foldl max 0 := by
    rw [cellWidth, max?_getD_eq_foldl]
  rw [getElem_columnWidths hrecords hcn, List.getElem_ofFn, columnWidth, max?_getD_eq_foldl,
    columnTexts, List.map_append, List.map_append, List.foldl_append, List.foldl_append,
    List.map_flatMap, foldl_max_flatMap, List.map_map]
  simp only [Function.comp_def, hrow, hcell]
  unfold nameRecord?
  split
  · simp [hcn]
  · rfl

theorem recordHeight_lineRecord (row : Vector StyledText n) :
    recordHeight (canvas.lineRecord row) = Grid.rowHeight row := by
  rw [recordHeight, Grid.rowHeight, Grid.tallest, lineRecord, List.map_map, List.map_map]
  congr 3
  funext cell
  simp [paintLines, StyledText.length_lines]

/-- The lines of a row, each with the texts that stand on it. -/
theorem recordLines_lineRecord (widths : List Nat) (row : Vector StyledText n) :
    recordLines widths (canvas.lineRecord row) =
      (List.range (Grid.rowHeight row)).map fun j =>
        closedParts widths (row.map fun cell => canvas.textAt cell j).toList := by
  rw [recordLines, recordHeight_lineRecord]
  refine List.map_congr_left fun j _ => ?_
  rw [Vector.toList_map, recordLine, closedParts, lineRecord, List.zipWith_map_right,
    List.zipWith_map_right]
  rfl

variable {grid}

theorem LineByLine.names_eq {canvas : Canvas} (h : canvas.LineByLine grid) :
    (if grid.showHeader then some (grid.columns.toList.map Cell.ofText) else none) =
      nameRecord? grid := by
  unfold nameRecord?
  split
  · next hheader => rw [List.map_congr_left (h.names hheader)]
  · rfl

theorem LineByLine.rows_eq {canvas : Canvas} (h : canvas.LineByLine grid) :
    (grid.rows.map fun row => row.toList.map canvas.paintCell) =
      grid.rows.map canvas.lineRecord :=
  List.map_congr_left fun row hrow => List.map_congr_left (h.cells row hrow)

end Records

variable {m : Nat} {grid : Grid (m + 1)}

/-- The last column of a line is filled as the others are. -/
theorem joinLine_closedParts (texts : Vector String (m + 1)) :
    joinLine .inner "|" (closedParts (List.ofFn (canvas.columnWidth grid)) texts.toList) =
      canvas.lineOf grid texts ++
        spaces (canvas.columnWidth grid (Fin.last m) - tableWidth (lastOf texts) + 1) := by
  rw [joinLine, List.ofFn_succ_last, toList_eq_concat,
    intercalate_closedParts (by simp), lineOf]

theorem lastCellWidths_eq (row : Vector StyledText (m + 1)) :
    Grid.lastCellWidths displayWidth row =
      (List.range (Grid.rowHeight row)).map fun j => displayWidth ((lastOf row).plainAt j) := by
  have hheight : ((row.toList.map fun cell => cell.lines.length).max?).getD 1 =
      Grid.rowHeight row := by
    rw [Grid.rowHeight, Grid.tallest, List.map_map]
    simp only [StyledText.length_lines, Function.comp_def]
    cases hmax : (row.toList.map fun cell => lineFeeds cell.toPlain + 1).max? with
    | none =>
      rw [toList_eq_concat] at hmax
      simp at hmax
    | some height => rfl
  simp only [Grid.lastCellWidths, hheight, getLast?_toList, Option.map_some, Option.getD_some]
  refine List.map_congr_left fun j _ => ?_
  rw [StyledText.plainAt]
  cases (lastOf row).lines[j]? with
  | none => exact displayWidth_empty.symm
  | some line => rfl

theorem lastColumnWidths_eq (grid : Grid (m + 1)) :
    grid.lastColumnWidths displayWidth =
      (if grid.showHeader then [some (displayWidth (lastOf grid.columns)), none] else []) ++
        grid.rowLines.map fun line => some (displayWidth ((lastOf line.1).plainAt line.2)) := by
  have hname : grid.columns.toList.getLast?.getD "" = (lastOf grid.columns) := by
    rw [getLast?_toList, Option.getD_some]
  simp only [Grid.lastColumnWidths, hname, lastCellWidths_eq, Grid.rowLines, List.map_flatMap,
    List.map_map, Function.comp_def]

theorem max?_lastColumnWidths_eq (grid : Grid (m + 1)) :
    (((grid.lastColumnWidths displayWidth).filterMap id).max?).getD 0 = grid.plainWidth := by
  rw [lastColumnWidths_eq, Grid.plainWidth, List.filterMap_append]
  cases grid.showHeader <;> simp [List.filterMap_map]

/-- A line of texts as it is left by the cut, where `plain` is the last text as it is measured
for that. -/
def cutLine (grid : Grid (m + 1)) (texts : Vector String (m + 1)) (plain : String) : String :=
  stripSpaces (grid.plainWidth - displayWidth plain + 1)
    (joinLine .inner "|" (closedParts (List.ofFn (canvas.columnWidth grid)) texts.toList))

/-- The cut leaves a line as it is meant if both measures leave the same filling on it. -/
theorem cutLine_eq_iff (texts : Vector String (m + 1)) (plain : String) :
    canvas.cutLine grid texts plain = canvas.lineOf grid texts ↔
      grid.plainWidth - displayWidth plain =
        canvas.columnWidth grid (Fin.last m) - tableWidth (lastOf texts) := by
  rw [cutLine, joinLine_closedParts, stripSpaces_append_spaces_iff]

theorem gridLines_inner (hborder : grid.border = .inner)
    (hshown : (grid.isEmpty && !grid.showHeader) = false) :
    canvas.gridLines grid =
      stripFilling (((grid.lastColumnWidths displayWidth).filterMap id).max?.getD 0)
        (grid.lastColumnWidths displayWidth)
        (tableLines .inner (m + 1)
          (if grid.showHeader then some (grid.columns.toList.map Cell.ofText) else none)
          (grid.rows.map fun row => row.toList.map canvas.paintCell)) := by
  simp only [gridLines, hshown, hborder, Bool.false_eq_true, if_false]

/-- A grid without a frame is drawn line by line, each as it is left by the cut. -/
theorem gridLines_of_lineByLine (hborder : grid.border = .inner) (h : canvas.LineByLine grid) :
    canvas.gridLines grid =
      (if grid.showHeader then
        [canvas.cutLine grid grid.columns (lastOf grid.columns),
          joinLine .inner "+" (ruleParts (List.ofFn (canvas.columnWidth grid)))]
      else []) ++
      grid.rowLines.map fun line =>
        canvas.cutLine grid (line.1.map fun cell => canvas.textAt cell line.2)
          ((lastOf line.1).plainAt line.2) := by
  have hwidths := canvas.columnWidths_lineRecord grid
  have hbody : (grid.rows.map canvas.lineRecord).flatMap (fun record =>
      (recordLines (List.ofFn (canvas.columnWidth grid)) record).map (joinLine .inner "|")) =
      grid.rowLines.map fun line =>
        joinLine .inner "|" (closedParts (List.ofFn (canvas.columnWidth grid))
          (line.1.map fun cell => canvas.textAt cell line.2).toList) := by
    simp only [List.flatMap_map, recordLines_lineRecord, List.map_map, Grid.rowLines,
      List.map_flatMap, Function.comp_def]
  cases hempty : grid.isEmpty && !grid.showHeader with
  | true =>
    obtain ⟨hrows, hheader⟩ := grid.hidden_iff.1 hempty
    rw [gridLines, if_pos hempty]
    simp [hheader, Grid.rowLines, hrows]
  | false =>
    rw [canvas.gridLines_inner hborder hempty, max?_lastColumnWidths_eq, lastColumnWidths_eq,
      h.names_eq, h.rows_eq]
    cases hheader : grid.showHeader with
    | false =>
      have hrecord : nameRecord? grid = none := by simp [nameRecord?, hheader]
      rw [hrecord] at hwidths ⊢
      simp only [tableLines, Nat.succ_ne_zero, if_false, hwidths, hbody, Bool.false_eq_true,
        List.nil_append, stripFilling_map, cutLine]
    | true =>
      have hrecord : nameRecord? grid = some (grid.columns.toList.map fun name => [name]) := by
        simp [nameRecord?, hheader]
      have hne : grid.columns.toList ≠ [] := by
        rw [toList_eq_concat]
        simp
      rw [hrecord] at hwidths ⊢
      simp only [tableLines, Nat.succ_ne_zero, if_false, hwidths, hbody, if_true,
        recordLines_singletons hne, List.map_cons, List.map_nil, List.cons_append,
        List.nil_append, stripFilling, stripFilling_map, cutLine]

theorem gridLines_eq_openLines_iff (hborder : grid.border = .inner)
    (h : canvas.LineByLine grid) :
    canvas.gridLines grid = canvas.openLines grid ↔ canvas.KnowsFilling grid := by
  have hrows : (grid.rowLines.map fun line =>
        canvas.cutLine grid (line.1.map fun cell => canvas.textAt cell line.2)
          ((lastOf line.1).plainAt line.2)) =
      (grid.rowLines.map fun line =>
        canvas.lineOf grid (line.1.map fun cell => canvas.textAt cell line.2)) ↔
      ∀ line ∈ grid.rowLines, grid.plainWidth - displayWidth ((lastOf line.1).plainAt line.2) =
        canvas.columnWidth grid (Fin.last m) -
          tableWidth (canvas.textAt (lastOf line.1) line.2) := by
    rw [List.map_inj_left]
    refine forall₂_congr fun line _ => ?_
    rw [cutLine_eq_iff, lastOf_map]
  rw [gridLines_of_lineByLine canvas hborder h, openLines]
  cases hheader : grid.showHeader with
  | false =>
    simp only [Bool.false_eq_true, if_false, List.nil_append, hrows]
    exact ⟨fun htext => ⟨by simp [hheader], htext⟩, KnowsFilling.text⟩
  | true =>
    simp only [if_true, List.cons_append, List.nil_append, List.cons.injEq, true_and, hrows,
      cutLine_eq_iff]
    constructor
    · exact fun hboth => ⟨fun _ => hboth.1, hboth.2⟩
    · exact fun hknows => ⟨hknows.name hheader, hknows.text⟩

/-! ## Texts that are measured alike -/

/-- The lines that a cell has none of do not count for a width. -/
theorem foldl_max_range {α : Type} (width : α → Nat) {fallback : α} (hfallback : width fallback = 0)
    {texts : List α} {height : Nat} (h : texts.length ≤ height) :
    ((List.range height).map fun j => width (texts[j]?.getD fallback)).foldl max 0 =
      (texts.map width).foldl max 0 := by
  obtain ⟨extra, rfl⟩ := Nat.exists_eq_add_of_le h
  have htexts : (List.range texts.length).map (fun j => width (texts[j]?.getD fallback)) =
      texts.map width := by
    refine List.ext_getElem (by simp) fun j hj hj' => ?_
    rw [List.length_map] at hj'
    simp [hj']
  have hnone (j : Nat) : texts[texts.length + j]? = none :=
    List.getElem?_eq_none (Nat.le_add_right _ _)
  have hzeros (start : Nat) :
      ((List.range extra).map fun _ => 0).foldl max start = start := by
    induction extra with
    | zero => rfl
    | succ extra ih => rw [List.range_succ, List.map_append, List.foldl_append, ih (by omega)]; simp
  rw [List.range_add, List.map_append, List.foldl_append, htexts, List.map_map]
  simp only [Function.comp_def, hnone, Option.getD_none, hfallback, hzeros]

theorem length_le_rowHeight (row : Vector StyledText (m + 1)) :
    (canvas.paintLines (lastOf row)).length ≤ Grid.rowHeight row := by
  rw [← canvas.recordHeight_lineRecord]
  exact length_le_recordHeight (List.mem_map_of_mem (lastOf_mem row))

/-- The width of the last column by the lines of the rows. -/
theorem columnWidth_last (grid : Grid (m + 1)) :
    canvas.columnWidth grid (Fin.last m) =
      ((if grid.showHeader then [tableWidth (lastOf grid.columns)] else []) ++
        grid.rowLines.map fun line => tableWidth (canvas.textAt (lastOf line.1) line.2)).foldl
          max 0 := by
  have hrow (row : Vector StyledText (m + 1)) :
      ((List.range (Grid.rowHeight row)).map fun j =>
        tableWidth (canvas.textAt (lastOf row) j)).foldl max 0 =
          ((canvas.paintLines (lastOf row)).map tableWidth).foldl max 0 :=
    foldl_max_range tableWidth tableWidth_empty (canvas.length_le_rowHeight row)
  rw [columnWidth, max?_getD_eq_foldl, columnTexts, List.map_append, List.foldl_append,
    List.foldl_append, Grid.rowLines, List.map_flatMap, List.map_flatMap, foldl_max_flatMap,
    foldl_max_flatMap]
  simp only [getElem_last, List.map_map, Function.comp_def, hrow]
  cases grid.showHeader <;> rfl

section Measured

variable {canvas : Canvas}
  (hname : grid.showHeader →
    tableWidth (lastOf grid.columns) = displayWidth (lastOf grid.columns))
  (htext : ∀ line ∈ grid.rowLines,
    tableWidth (canvas.textAt (lastOf line.1) line.2) =
      displayWidth ((lastOf line.1).plainAt line.2))

include hname htext

/-- Where the texts of the last column are measured alike, so is the column. -/
theorem plainWidth_eq_columnWidth :
    grid.plainWidth = canvas.columnWidth grid (Fin.last m) := by
  rw [columnWidth_last, Grid.plainWidth, max?_getD_eq_foldl, List.map_congr_left htext]
  cases hheader : grid.showHeader with
  | true => rw [if_pos rfl, if_pos rfl, hname hheader]
  | false => rfl

/-- So is what is left to fill. -/
theorem knowsFilling_of_measured : canvas.KnowsFilling grid := by
  have hwidth := plainWidth_eq_columnWidth hname htext
  refine ⟨fun hheader => ?_, fun line hline => ?_⟩
  · rw [hwidth, hname hheader]
  · rw [hwidth, htext line hline]

end Measured

end Canvas
end StringReport
