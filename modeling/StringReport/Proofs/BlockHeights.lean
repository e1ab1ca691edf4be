import StringReport.Proofs.CarriedStyles
import StringReport.Proofs.DrawnLines

/-!
# The height of a block

How many lines a block takes is told by the line feeds of its texts alone: neither colors nor
widths have a part in it. A grid splits its cells at their line feeds, so that none is left in
its lines and a row takes as many lines as its tallest cell; a text outside of grids is drawn
with the line feeds it has.

So two reports are of one height as soon as their blocks are.
-/
namespace StringReport

/-- The line feeds of a text. -/
def lineFeeds (s : String) : Nat := s.toList.count '\n'

@[simp] theorem lineFeeds_append (a b : String) :
    lineFeeds (a ++ b) = lineFeeds a + lineFeeds b := by
  simp [lineFeeds]

theorem lineFeeds_eq_zero {s : String} : lineFeeds s = 0 ↔ '\n' ∉ s.toList :=
  List.count_eq_zero

theorem Inert.lineFeeds {s : String} (h : Inert s.toList) : lineFeeds s = 0 :=
  lineFeeds_eq_zero.2 h.newline_notMem

theorem lineFeeds_join (texts : List String) :
    lineFeeds (String.join texts) = (texts.map lineFeeds).sum := by
  simp only [lineFeeds, String.toList_join, List.count_flatMap]
  rfl

/-! ## Styled texts -/

namespace StyledText

@[simp] theorem toPlain_push (t : StyledText) (text : String) (tone : Tone) :
    (t.push text tone).toPlain = t.toPlain ++ text := by
  apply String.toList_inj.1
  unfold push
  split
  · next h => simp [h]
  · simp [toPlain, String.toList_join]

@[simp] theorem toPlain_plain (text : String) : (plain text).toPlain = text := by
  rw [plain, toPlain_push]
  exact String.empty_append

@[simp] theorem toPlain_value (text : String) : (value text).toPlain = text := by
  rw [value, toPlain_push]
  exact String.empty_append

@[simp] theorem toPlain_accent (text : String) : (accent text).toPlain = text := by
  rw [accent, toPlain_push]
  exact String.empty_append

theorem toPlain_prepend (part : List Char) (tone : Tone) (t : StyledText) :
    (prepend part tone t).toPlain = String.ofList part ++ t.toPlain := by
  apply String.toList_inj.1
  unfold prepend
  split
  · next h => simp [h]
  · simp [toPlain, String.toList_join]

/-- Putting lines before others adds as many lines as there are parts, and no line feed. -/
theorem graft_spec (tone : Tone) {first : List Char} {parts : List (List Char)}
    {rest : StyledText × List StyledText} (hfirst : '\n' ∉ first)
    (hparts : ∀ part ∈ parts, '\n' ∉ part)
    (hrest : ∀ line ∈ rest.1 :: rest.2, lineFeeds line.toPlain = 0) :
    (graft tone first parts rest).2.length = parts.length + rest.2.length ∧
      ∀ line ∈ (graft tone first parts rest).1 :: (graft tone first parts rest).2,
        lineFeeds line.toPlain = 0 := by
  have hpart {part : List Char} (h : '\n' ∉ part) : lineFeeds (String.ofList part) = 0 :=
    lineFeeds_eq_zero.2 (by simpa using h)
  induction parts generalizing first with
  | nil =>
    have hline := hrest rest.1 List.mem_cons_self
    refine ⟨by simp [graft], fun line hmem => ?_⟩
    rcases List.mem_cons.1 hmem with rfl | hmem
    · simp [graft, toPlain_prepend, hpart hfirst, hline]
    · exact hrest line (List.mem_cons_of_mem _ hmem)
  | cons next parts ih =>
    obtain ⟨hlength, hlines⟩ := ih (hparts next List.mem_cons_self)
      fun part hmem => hparts part (List.mem_cons_of_mem _ hmem)
    refine ⟨by simp [graft, hlength]; omega, fun line hmem => ?_⟩
    rcases List.mem_cons.1 hmem with rfl | hmem
    · simp only [graft, toPlain_prepend, lineFeeds_append, hpart hfirst]
      rfl
    · exact hlines line hmem

theorem splitSpans_spec (spans : List Span) :
    (splitSpans spans).2.length = (spans.map fun span => lineFeeds span.text).sum ∧
      ∀ line ∈ (splitSpans spans).1 :: (splitSpans spans).2, lineFeeds line.toPlain = 0 := by
  induction spans with
  | nil =>
    refine ⟨rfl, fun line hmem => ?_⟩
    obtain rfl : line = empty := by simpa [splitSpans] using hmem
    rfl
  | cons span spans ih =>
    have hparts := mark_notMem_partsOn '\n' span.text.toList
    have hlength := length_partsOn '\n' span.text.toList
    simp only [partsOn, List.mem_cons, forall_eq_or_imp, List.length_cons,
      Nat.add_right_cancel_iff] at hparts hlength
    obtain ⟨hgraft, hlines⟩ := graft_spec span.tone hparts.1 hparts.2 ih.2
    refine ⟨?_, hlines⟩
    rw [splitSpans, hgraft, hlength, ih.1, List.map_cons, List.sum_cons]
    rfl

theorem lineFeeds_toPlain (t : StyledText) :
    lineFeeds t.toPlain = (t.spans.map fun span => lineFeeds span.text).sum := by
  rw [toPlain, lineFeeds_join, List.map_map]
  rfl

/-- A text has one line more than it has line feeds. -/
theorem length_lines (t : StyledText) : t.lines.length = lineFeeds t.toPlain + 1 := by
  rw [lineFeeds_toPlain, ← (splitSpans_spec t.spans).1]
  rfl

theorem lineFeeds_of_mem_lines {t line : StyledText} (h : line ∈ t.lines) :
    lineFeeds line.toPlain = 0 := (splitSpans_spec t.spans).2 line h

end StyledText

/-! ## Cells and tables -/

namespace Canvas

/-- Painting adds no line feed. -/
@[simp] theorem lineFeeds_paintSpan (canvas : Canvas) (text : String) (tone : Tone) :
    lineFeeds (canvas.paintSpan text tone) = lineFeeds text := by
  have hplain : lineFeeds plainStyle = 0 := by decide
  have haccent : lineFeeds "\x1b[36m" = 0 := by decide
  have hvalue : lineFeeds "\x1b[32m" = 0 := by decide
  cases tone with
  | plain => rfl
  | accent =>
    simp only [paintSpan, Tone.style?]
    split <;> simp [hplain, haccent]
  | value =>
    simp only [paintSpan, Tone.style?]
    split <;> simp [hplain, hvalue]

@[simp] theorem lineFeeds_paint (canvas : Canvas) (t : StyledText) :
    lineFeeds (canvas.paint t) = lineFeeds t.toPlain := by
  simp only [paint, StyledText.toPlain, lineFeeds_join, List.map_map]
  congr 2
  funext span
  exact canvas.lineFeeds_paintSpan span.text span.tone

@[simp] theorem length_paintCell (canvas : Canvas) (t : StyledText) :
    (canvas.paintCell t).length = lineFeeds t.toPlain + 1 := by
  rw [paintCell, Cell.length_ofLines, paintLines, List.length_map, StyledText.length_lines]

theorem newline_notMem_paintCell (canvas : Canvas) (t : StyledText) :
    ∀ line ∈ canvas.paintCell t, '\n' ∉ line.toList := by
  refine Cell.newline_notMem_ofLines fun line hline => ?_
  obtain ⟨span, hspan, rfl⟩ := List.mem_map.1 hline
  rw [← lineFeeds_eq_zero, lineFeeds_paint]
  exact StyledText.lineFeeds_of_mem_lines hspan

end Canvas

namespace Cell

@[simp] theorem length_ofText (text : String) : (ofText text).length = lineFeeds text + 1 := by
  rw [ofText, length_ofLines, length_linesOf]
  rfl

theorem newline_notMem_ofText (text : String) : ∀ line ∈ ofText text, '\n' ∉ line.toList :=
  newline_notMem_ofLines fun _ hline => newline_notMem_linesOf hline

end Cell

/-- Lines without line feeds are put together without any. -/
theorem newline_lineProperty : LineProperty fun line => '\n' ∉ line where
  nil := List.not_mem_nil
  append ha hb hmem := (List.mem_append.1 hmem).elim ha hb
  mark hc hmem := by
    rw [← List.mem_singleton.1 hmem] at hc
    exact absurd hc (by decide)
  strip h hmem := h (List.mem_append_left _ hmem)

/-- The lines of a table whose records have the given heights. -/
def tableHeight (border : Border) (header : Option Nat) (rows : List Nat) : Nat :=
  match border, header with
  | .framed, some header => 1 + header + 1 + if rows.isEmpty then 0 else rows.sum + 1
  | .framed, none => 1 + rows.sum + 1
  | .inner, some header => header + 1 + rows.sum
  | .inner, none => rows.sum

theorem length_tableLines {n : Nat} (hn : n ≠ 0) (border : Border)
    (header : Option (List Cell)) (rows : List (List Cell)) :
    (tableLines border n header rows).length =
      tableHeight border (header.map recordHeight) (rows.map recordHeight) := by
  simp only [tableLines, if_neg hn]
  generalize columnWidths n (header.toList ++ rows) = widths
  have hrecord (record : List Cell) :
      ((recordLines widths record).map (joinLine border "|")).length = recordHeight record := by
    rw [List.length_map, recordLines, List.length_map, List.length_range]
  have hbody : (rows.flatMap fun record =>
      (recordLines widths record).map (joinLine border "|")).length =
      (rows.map recordHeight).sum := by
    rw [List.length_flatMap]
    exact congrArg List.sum (List.map_congr_left fun record _ => hrecord record)
  cases border with
  | framed =>
    cases header with
    | none =>
      simp only [tableHeight, Option.map_none, List.length_append, List.length_cons,
        List.length_nil, hbody]
      omega
    | some header =>
      simp only [tableHeight, Option.map_some, List.length_append, List.length_cons, hrecord,
        List.isEmpty_map]
      split
      · simp only [List.length_nil]
        omega
      · simp only [List.length_append, List.length_cons, List.length_nil, hbody]
        omega
  | inner =>
    cases header with
    | none => exact hbody
    | some header =>
      simp only [tableHeight, Option.map_some, List.length_append, List.length_cons, hrecord,
        hbody]
      omega

theorem length_stripFilling (width : Nat) (tails : List (Option Nat)) (lines : List String) :
    (stripFilling width tails lines).length = lines.length := by
  fun_induction stripFilling width tails lines <;> simp [*]

/-! ## Grids -/

namespace Grid

variable {n : Nat}

/-- The lines of the tallest of some texts. -/
def tallest (texts : List String) : Nat := ((texts.map fun text => lineFeeds text + 1).max?).getD 0

/-- The lines that a row takes. -/
def rowHeight (row : Vector StyledText n) : Nat := tallest (row.toList.map StyledText.toPlain)

/-- The lines that a grid takes. -/
def height (grid : Grid n) : Nat :=
  if n = 0 ∨ (grid.isEmpty && !grid.showHeader) then 0
  else
    tableHeight grid.border (if grid.showHeader then some (tallest grid.columns.toList) else none)
      (grid.rows.map rowHeight)

end Grid

theorem recordHeight_ofText (texts : List String) :
    recordHeight (texts.map Cell.ofText) = Grid.tallest texts := by
  rw [recordHeight, Grid.tallest, List.map_map]
  congr 3
  exact funext Cell.length_ofText

namespace Canvas

variable (canvas : Canvas)

theorem recordHeight_paintCell {n : Nat} (row : Vector StyledText n) :
    recordHeight (row.toList.map canvas.paintCell) = Grid.rowHeight row := by
  rw [recordHeight, Grid.rowHeight, Grid.tallest, List.map_map, List.map_map]
  congr 3
  exact funext canvas.length_paintCell

theorem length_gridLines {n : Nat} (grid : Grid n) :
    (canvas.gridLines grid).length = grid.height := by
  unfold gridLines Grid.height
  by_cases hempty : grid.isEmpty && !grid.showHeader
  · simp [hempty]
  have hheader : (if grid.showHeader then some (grid.columns.toList.map Cell.ofText)
      else none).map recordHeight =
      if grid.showHeader then some (Grid.tallest grid.columns.toList) else none := by
    cases grid.showHeader with
    | true => exact congrArg some (recordHeight_ofText _)
    | false => rfl
  have hrows : (grid.rows.map fun row => row.toList.map canvas.paintCell).map recordHeight =
      grid.rows.map Grid.rowHeight := by
    rw [List.map_map]
    exact List.map_congr_left fun row _ => canvas.recordHeight_paintCell row
  by_cases hn : n = 0
  · simp only [hempty, hn, true_or, if_true, Bool.false_eq_true, if_false, tableLines]
    cases grid.border with
    | framed => rfl
    | inner => rw [length_stripFilling]; rfl
  · have hdrawn := length_tableLines hn grid.border
      (if grid.showHeader then some (grid.columns.toList.map Cell.ofText) else none)
      (grid.rows.map fun row => row.toList.map canvas.paintCell)
    rw [hheader, hrows] at hdrawn
    simp only [hempty, hn, false_or, Bool.false_eq_true, if_false]
    rw [← hdrawn]
    cases grid.border with
    | framed => rfl
    | inner => exact length_stripFilling _ _ _

/-- No line of a grid holds a line feed, whatever stands in its cells. -/
theorem newline_notMem_gridLines {n : Nat} (grid : Grid n) :
    ∀ line ∈ canvas.gridLines grid, '\n' ∉ line.toList :=
  newline_lineProperty.gridLines (fun name _ => Cell.newline_notMem_ofText name)
    fun _ _ cell _ => canvas.newline_notMem_paintCell cell

end Canvas

/-! ## Blocks -/

/-- The lines that a block takes. -/
def Block.height (headers : Bool) : Block → Nat
  | .heading text _ => if headers then lineFeeds text + 4 else 0
  | .subHeading label _ => if headers then lineFeeds label.toPlain + 4 else 0
  | .grid drawn => drawn.height
  | .line text => lineFeeds text.toPlain + 1
  | .blank => 1

/-- The line feeds that end the lines, and those in them. -/
def feedsOf (lines : List String) : Nat := (lines.map fun line => lineFeeds line + 1).sum

theorem feedsOf_of_newline_notMem {lines : List String}
    (h : ∀ line ∈ lines, '\n' ∉ line.toList) : feedsOf lines = lines.length := by
  induction lines with
  | nil => rfl
  | cons line lines ih =>
    have hline := lineFeeds_eq_zero.2 (h line List.mem_cons_self)
    have ih := ih fun other hother => h other (List.mem_cons_of_mem _ hother)
    rw [feedsOf] at ih ⊢
    rw [List.map_cons, List.sum_cons, ih, hline, List.length_cons]
    omega

namespace Canvas

variable (canvas : Canvas)

theorem feedsOf_headingLines (text : String) (styled : Bool) :
    feedsOf (canvas.headingLines text styled) = lineFeeds text + 4 := by
  have hrule (width : Nat) :
      lineFeeds (" " ++ String.ofList (List.replicate width '─')) = 0 :=
    (inert_headingRule width).lineFeeds
  have hindent : lineFeeds "  " = 0 := by decide
  have hempty : lineFeeds "" = 0 := by decide
  simp only [headingLines, feedsOf, List.map_cons, List.map_nil, List.sum_cons, List.sum_nil,
    lineFeeds_paintSpan, hrule, lineFeeds_append, hindent, hempty]
  omega

/-- No line of a boxed label holds a line feed, whatever the label is. -/
theorem newline_notMem_subHeadingLines (label : StyledText) (count : Nat) :
    ∀ line ∈ canvas.subHeadingLines label count, '\n' ∉ line.toList := by
  intro line hline
  rcases List.mem_append.1 hline with hline | hline
  · refine newline_lineProperty.tableLines .framed 1 (fun _ h => by cases h) ?_ line hline
    intro record hrecord cell hcell
    rw [List.mem_singleton.1 hrecord, List.mem_singleton] at hcell
    rw [hcell]
    exact Cell.newline_notMem_ofText _
  · rw [List.mem_singleton.1 hline]
    decide

theorem feedsOf_subHeadingLines (label : StyledText) (count : Nat) :
    feedsOf (canvas.subHeadingLines label count) = lineFeeds label.toPlain + 4 := by
  have hcount : lineFeeds (" (" ++ toString count ++ ")") = 0 := (inert_labelCount count).lineFeeds
  rw [feedsOf_of_newline_notMem (canvas.newline_notMem_subHeadingLines label count),
    subHeadingLines, List.length_append,
    length_tableLines (by decide)]
  simp only [Option.map_none, List.map_cons, List.map_nil, recordHeight, tableHeight,
    Cell.length_ofText, lineFeeds_paint, StyledText.toPlain_push, lineFeeds_append, hcount]
  simp
  omega

theorem feedsOf_blockLines (block : Block) :
    feedsOf (canvas.blockLines block) = block.height canvas.headers := by
  cases block with
  | heading text styled =>
    simp only [blockLines, Block.height]
    split
    · exact canvas.feedsOf_headingLines text styled
    · rfl
  | subHeading label count =>
    simp only [blockLines, Block.height]
    split
    · exact canvas.feedsOf_subHeadingLines label count
    · rfl
  | grid grid =>
    simp only [blockLines, Block.height]
    rw [feedsOf_of_newline_notMem (canvas.newline_notMem_gridLines grid),
      canvas.length_gridLines]
  | line text =>
    simp only [blockLines, Block.height, feedsOf, List.map_cons, List.map_nil, List.sum_cons,
      List.sum_nil, lineFeeds_paint]
    rfl
  | blank => rfl

/-- The line feeds of drawn blocks are those of the blocks' heights. -/
theorem lineFeeds_draw (blocks : List Block) :
    lineFeeds (canvas.draw blocks) = (blocks.map (Block.height canvas.headers)).sum := by
  have hpush (line : String) : lineFeeds (line.push '\n') = lineFeeds line + 1 := by
    simp [lineFeeds]
  have hfeeds (lines : List String) :
      lineFeeds (String.join (lines.map fun line => line.push '\n')) = feedsOf lines := by
    rw [lineFeeds_join, List.map_map, feedsOf]
    exact congrArg List.sum (List.map_congr_left fun line _ => hpush line)
  rw [draw, hfeeds]
  induction blocks with
  | nil => rfl
  | cons block blocks ih =>
    rw [feedsOf] at ih ⊢
    rw [List.flatMap_cons, List.map_append, List.sum_append, ih, List.map_cons, List.sum_cons,
      ← canvas.feedsOf_blockLines block, feedsOf]

end Canvas
end StringReport
