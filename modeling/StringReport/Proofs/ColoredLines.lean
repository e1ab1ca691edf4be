import Mathlib.Data.List.Forall2
import StringReport.Proofs.OneLineTables

/-!
# Lines with and without colors

A line with colors has the spans of the line without, some of them between a sequence that sets
a color and one that takes it back. Lines are put together span by span, so blocks are drawn so
if their texts are, and if the columns of a table are as wide with colors as without.
-/
namespace StringReport

/-! ## Spans -/

/-- A text that stands on one line and in which no sequence begins. -/
def Clear (text : List Char) : Prop := Character.escape ∉ text ∧ '\n' ∉ text

instance (text : List Char) : Decidable (Clear text) := instDecidableAnd

theorem Inert.clear {text : List Char} (h : Inert text) : Clear text :=
  ⟨h.escape_notMem, h.newline_notMem⟩

namespace Span

/-- A span of some characters, none of which begins a sequence or ends a line. -/
structure Solid (span : Span) : Prop where
  nonempty : span.text ≠ ""
  clear : Clear span.text.toList

/-- A span on a line with colors: bare, or between the sequences of its color. -/
def enclosed (span : Span) : String :=
  match span.tone with
  | .plain => span.text
  | .accent => "\x1b[36m" ++ span.text ++ "\x1b[0m"
  | .value => "\x1b[32m" ++ span.text ++ "\x1b[0m"

/-- A line of spans with colors. -/
def coloredLine (spans : List Span) : String := String.join (spans.map enclosed)

/-- A line of spans without colors. -/
def plainLine (spans : List Span) : String := String.join (spans.map text)

end Span

/-- A text without the sequences of colors. -/
def eraseColors : List Char → List Char
  | '\x1b' :: '[' :: '3' :: '6' :: 'm' :: rest => eraseColors rest
  | '\x1b' :: '[' :: '3' :: '2' :: 'm' :: rest => eraseColors rest
  | '\x1b' :: '[' :: '0' :: 'm' :: rest => eraseColors rest
  | c :: rest => c :: eraseColors rest
  | [] => []

theorem eraseColors_append {text : List Char} (h : Character.escape ∉ text) (rest : List Char) :
    eraseColors (text ++ rest) = text ++ eraseColors rest := by
  induction text with
  | nil => rfl
  | cons c text ih =>
    simp only [List.mem_cons, not_or] at h
    have hc : c ≠ '\x1b' := Ne.symm h.1
    rw [List.cons_append, eraseColors, ih h.2, List.cons_append]
    all_goals
      rintro - rfl
      exact absurd rfl hc

theorem eraseColors_enclosed {span : Span} (h : span.Solid) (rest : List Char) :
    eraseColors (span.enclosed.toList ++ rest) = span.text.toList ++ eraseColors rest := by
  obtain ⟨text, tone⟩ := span
  have htext := eraseColors_append h.clear.1
  cases tone with
  | plain => exact htext rest
  | accent =>
    simp only [Span.enclosed, String.toList_append, List.append_assoc]
    exact htext ("\x1b[0m".toList ++ rest)
  | value =>
    simp only [Span.enclosed, String.toList_append, List.append_assoc]
    exact htext ("\x1b[0m".toList ++ rest)

/-- Without its sequences a colored line is the line without colors. -/
theorem eraseColors_coloredLine {spans : List Span} (h : ∀ span ∈ spans, span.Solid) :
    eraseColors (Span.coloredLine spans).toList = (Span.plainLine spans).toList := by
  induction spans with
  | nil => rfl
  | cons span spans ih =>
    have ih := ih fun other hother => h other (List.mem_cons_of_mem _ hother)
    rw [Span.coloredLine, Span.plainLine, String.toList_join, String.toList_join] at ih ⊢
    rw [List.map_cons, List.flatMap_cons, eraseColors_enclosed (h span List.mem_cons_self), ih,
      List.map_cons, List.flatMap_cons]

/-! ## Lines -/

/-- A line with colors and the same line without. -/
def Colored (colored plain : String) : Prop :=
  ∃ spans : List Span, (∀ span ∈ spans, span.Solid) ∧
    colored = Span.coloredLine spans ∧ plain = Span.plainLine spans

namespace Colored

theorem append {a b c d : String} (hab : Colored a b) (hcd : Colored c d) :
    Colored (a ++ c) (b ++ d) := by
  obtain ⟨spans, hspans, rfl, rfl⟩ := hab
  obtain ⟨others, hothers, rfl, rfl⟩ := hcd
  refine ⟨spans ++ others, ?_, ?_, ?_⟩
  · intro span hspan
    rcases List.mem_append.1 hspan with hspan | hspan
    · exact hspans span hspan
    · exact hothers span hspan
  · simp [Span.coloredLine]
  · simp [Span.plainLine]

theorem span {text : String} (h : Clear text.toList) (hne : text ≠ "") (tone : Tone) :
    Colored (Span.enclosed ⟨text, tone⟩) text :=
  ⟨[⟨text, tone⟩], by simpa using ⟨hne, h⟩, by simp [Span.coloredLine], by simp [Span.plainLine]⟩

theorem empty : Colored "" "" := ⟨[], by simp, rfl, rfl⟩

/-- A text without colors stands bare. -/
theorem bare {text : String} (h : Clear text.toList) : Colored text text := by
  by_cases hne : text = ""
  · rw [hne]
    exact empty
  · exact span h hne .plain

end Colored

/-! ## Painted texts -/

/-- A text of solid spans. -/
def StyledText.Solid (t : StyledText) : Prop := ∀ span ∈ t.spans, span.Solid

theorem StyledText.Solid.push {t : StyledText} (h : t.Solid) {text : String}
    (htext : Clear text.toList) (tone : Tone) : (t.push text tone).Solid := by
  unfold StyledText.push
  split
  · exact h
  · next hne =>
    intro span hspan
    rcases List.mem_append.1 hspan with hspan | hspan
    · exact h span hspan
    · rw [List.mem_singleton.1 hspan]
      exact ⟨hne, htext⟩

theorem StyledText.solid_single {text : String} (h : Clear text.toList) (tone : Tone) :
    (StyledText.single tone text).Solid :=
  StyledText.Solid.push (t := .empty) (fun _ hspan => by cases hspan) h tone

theorem StyledText.Shown.solid {t : StyledText} (h : t.Shown) : t.Solid := by
  obtain ⟨htext⟩ := h
  exact solid_single htext.clear _

section Canvases

variable (headers : Bool)

/-- The canvas that paints. -/
def Canvas.painting : Canvas := ⟨headers, true⟩

/-- The canvas that does not paint. -/
def Canvas.bare : Canvas := ⟨headers, false⟩

theorem paintSpan_painting (span : Span) :
    (Canvas.painting headers).paintSpan span.text span.tone = span.enclosed := by
  obtain ⟨text, tone⟩ := span
  cases tone <;> rfl

theorem paintSpan_bare (text : String) (tone : Tone) :
    (Canvas.bare headers).paintSpan text tone = text := by
  cases tone <;> rfl

theorem colored_paintSpan {text : String} (h : Clear text.toList) (hne : text ≠ "")
    (tone : Tone) : Colored ((Canvas.painting headers).paintSpan text tone)
      ((Canvas.bare headers).paintSpan text tone) := by
  rw [paintSpan_painting headers ⟨text, tone⟩, paintSpan_bare]
  exact .span h hne tone

theorem colored_paint {t : StyledText} (h : t.Solid) :
    Colored ((Canvas.painting headers).paint t) ((Canvas.bare headers).paint t) := by
  refine ⟨t.spans, h, ?_, ?_⟩
  · rw [Canvas.paint, Span.coloredLine]
    exact congrArg String.join (List.map_congr_left fun span _ => paintSpan_painting headers span)
  · rw [Canvas.paint, Span.plainLine]
    exact congrArg String.join (List.map_congr_left fun span _ =>
      paintSpan_bare headers span.text span.tone)

/-! ## Tables -/

theorem clear_lineProperty : LineProperty Clear where
  nil := by simp [Clear]
  append ha hb := by simp [Clear, ha.1, ha.2, hb.1, hb.2]
  mark hc := by
    revert hc
    simp only [List.mem_cons, List.not_mem_nil, or_false]
    rintro (rfl | rfl | rfl | rfl) <;> decide
  strip h := by
    simp only [Clear, List.mem_append, not_or] at h
    exact ⟨h.1.1, h.2.1⟩

theorem clear_spaces (n : Nat) : Clear (spaces n).toList := (inert_spaces n).clear

theorem Colored.fillTo {colored plain : String} (h : Colored colored plain)
    (hwidth : tableWidth colored = tableWidth plain) (width : Nat) :
    Colored (fillTo width colored) (fillTo width plain) := by
  rw [StringReport.fillTo, StringReport.fillTo, hwidth]
  exact h.append (.bare (clear_spaces _))

theorem Colored.intercalate {separator : String} (hseparator : Clear separator.toList)
    {colored plain : List String} (h : List.Forall₂ Colored colored plain) :
    Colored (separator.intercalate colored) (separator.intercalate plain) := by
  induction h with
  | nil => exact .empty
  | @cons a b colored plain hab hrest ih =>
    cases hrest with
    | nil => simpa using hab
    | cons hnext hrest =>
      rw [String.intercalate_cons_cons, String.intercalate_cons_cons]
      exact (hab.append (.bare hseparator)).append ih

theorem colored_closedParts (widths : List Nat) {cells : List StyledText}
    (h : ∀ cell ∈ cells, cell.Shown) :
    List.Forall₂ Colored
      (closedParts widths (cells.map (Canvas.painting headers).paint))
      (closedParts widths (cells.map (Canvas.bare headers).paint)) := by
  induction cells generalizing widths with
  | nil => cases widths <;> exact .nil
  | cons cell cells ih =>
    cases widths with
    | nil => exact .nil
    | cons width widths =>
      have hcell := h cell List.mem_cons_self
      have hwidth : tableWidth ((Canvas.painting headers).paint cell) =
          tableWidth ((Canvas.bare headers).paint cell) :=
        (hcell.measured _).width.trans (hcell.measured _).width.symm
      have hspace : Colored " " " " := .bare (by decide)
      exact .cons
        ((hspace.append ((colored_paint headers hcell.solid).fillTo hwidth width)).append hspace)
        (ih widths fun other hother => h other (List.mem_cons_of_mem _ hother))

/-- A row of a grid without a frame is drawn alike, but for its colors. -/
theorem colored_openRow {m : Nat} (grid : Grid (m + 1)) {row : Vector StyledText (m + 1)}
    (h : ∀ cell ∈ row.toList, cell.Shown) :
    Colored ((Canvas.painting headers).openRow grid row)
      ((Canvas.bare headers).openRow grid row) := by
  have hrow := toList_eq_concat row
  have hfirst : ∀ cell ∈ row.pop.toList, cell.Shown := fun cell hcell =>
    h cell (hrow ▸ List.mem_append_left _ hcell)
  have hlast : row.back.Shown := h row.back (hrow ▸ List.mem_append_right _ List.mem_cons_self)
  have hspace : Colored " " " " := .bare (by decide)
  refine .intercalate (by decide) ?_
  exact List.rel_append (colored_closedParts headers grid.openWidths hfirst)
    (.cons (hspace.append (colored_paint headers hlast.solid)) .nil)

theorem clear_openRule {m : Nat} (grid : Grid (m + 1)) :
    Clear (Canvas.openRule grid).toList :=
  clear_lineProperty.rule .inner _

theorem colored_gridLines_open {m : Nat} {grid : Grid (m + 1)} (h : grid.Open) :
    List.Forall₂ Colored ((Canvas.painting headers).gridLines grid)
      ((Canvas.bare headers).gridLines grid) := by
  have hrow {row : Vector StyledText (m + 1)} (hrow : row ∈ grid.shownRows) :=
    colored_openRow headers grid (h.shownRows row hrow)
  rw [Canvas.gridLines_of_open _ h, Canvas.gridLines_of_open _ h]
  refine List.rel_append ?_ ?_
  · cases hheader : grid.showHeader with
    | true =>
      refine .cons (hrow ?_) (.cons (.bare (clear_openRule grid)) .nil)
      simp [Grid.shownRows, hheader]
    | false => exact .nil
  · rw [List.forall₂_map_left_iff, List.forall₂_map_right_iff, List.forall₂_same]
    exact fun row hmem => hrow (List.mem_append_right _ hmem)

/-- A grid of plain texts, whatever lines they take. -/
structure Grid.Textual {n : Nat} (grid : Grid n) : Prop where
  names : ∀ name ∈ grid.columns.toList, Clear name.toList
  cells : ∀ row ∈ grid.rows, ∀ cell ∈ row.toList,
    ∃ text, Character.escape ∉ text.toList ∧ cell = .plain text

/-- Plain texts are drawn alike on every canvas. -/
theorem Grid.Textual.gridLines_eq {n : Nat} {grid : Grid n} (h : grid.Textual)
    (canvas other : Canvas) : canvas.gridLines grid = other.gridLines grid := by
  have hrows : (grid.rows.map fun row => row.toList.map canvas.paintCell) =
      grid.rows.map fun row => row.toList.map other.paintCell := by
    refine List.map_congr_left fun row hrow => List.map_congr_left fun cell hcell => ?_
    obtain ⟨text, -, rfl⟩ := h.cells row hrow cell hcell
    rw [canvas.paintCell_plain, other.paintCell_plain]
  simp only [Canvas.gridLines, hrows]

theorem Grid.Textual.clear_gridLines {n : Nat} {grid : Grid n} (h : grid.Textual)
    (canvas : Canvas) : ∀ line ∈ canvas.gridLines grid, Clear line.toList := by
  refine clear_lineProperty.gridLines (fun name hname line hline => ?_)
    fun row hrow cell hcell line hline => ?_
  · have hclear := h.names name hname
    rw [Cell.ofText_of_notMem hclear.2, List.mem_singleton] at hline
    rwa [hline]
  · obtain ⟨text, htext, rfl⟩ := h.cells row hrow cell hcell
    have hlines : ∀ line ∈ linesOf text, Character.escape ∉ line.toList := fun line hline hc =>
      htext (mem_of_mem_linesOf hline hc)
    rw [canvas.paintCell_plain, Cell.ofText, Cell.ofLines_of_unescaped hlines] at hline
    exact ⟨hlines line hline, newline_notMem_linesOf hline⟩

/-! ## Blocks -/

/-- A block that is drawn alike with colors and without. -/
def Block.Solid : Block → Prop
  | .heading text _ => Clear text.toList
  | .subHeading label count =>
    label.Solid ∧ ∃ width, ∀ canvas : Canvas,
      tableWidth (canvas.paint (label.push (" (" ++ toString count ++ ")") .plain)) = width
  | .grid (n := n) drawn => (0 < n ∧ drawn.Open) ∨ drawn.Textual
  | .line text => text.Solid
  | .blank => True

theorem colored_headingLines {text : String} (h : Clear text.toList) (styled : Bool) :
    List.Forall₂ Colored ((Canvas.painting headers).headingLines text styled)
      ((Canvas.bare headers).headingLines text styled) := by
  have hrule (width : Nat) (tone : Tone) := colored_paintSpan headers
    (inert_headingRule width).clear (by simp [← String.toList_inj]) tone
  have hindented : Clear ("  " ++ text).toList := by
    simpa [Clear, Character.escape] using h
  have htext (tone : Tone) := colored_paintSpan headers hindented
    (by simp [← String.toList_inj]) tone
  exact .cons (hrule _ _) (.cons (htext _) (.cons (hrule _ _) (.cons .empty .nil)))

theorem Colored.clear {colored plain : String} (h : Colored colored plain) :
    '\n' ∉ colored.toList ∧ '\n' ∉ plain.toList := by
  obtain ⟨spans, hspans, rfl, rfl⟩ := h
  simp only [Span.coloredLine, Span.plainLine, String.toList_join, List.mem_flatMap,
    List.mem_map, not_exists, not_and, forall_exists_index, and_imp]
  refine ⟨?_, ?_⟩
  · rintro - span hspan rfl hmem
    obtain ⟨text, tone⟩ := span
    have htext := (hspans _ hspan).clear.2
    cases tone <;> simp_all [Span.enclosed]
  · rintro - span hspan rfl
    exact (hspans span hspan).clear.2

theorem colored_subHeadingLines {label : StyledText} {count : Nat}
    (h : (Block.subHeading label count).Solid) :
    List.Forall₂ Colored ((Canvas.painting headers).subHeadingLines label count)
      ((Canvas.bare headers).subHeadingLines label count) := by
  obtain ⟨hlabel, width, hwidth⟩ := h
  have hpainted := colored_paint headers (hlabel.push (inert_labelCount count).clear .plain)
  have hedge : Clear "| ".toList ∧ Clear " |".toList := by decide
  have hrule : Colored (Canvas.boxRule width) (Canvas.boxRule width) :=
    .bare (clear_lineProperty.rule .framed [width])
  rw [Canvas.subHeadingLines_eq _ hpainted.clear.1, Canvas.subHeadingLines_eq _ hpainted.clear.2]
  simp only [hwidth]
  exact .cons hrule (.cons (((Colored.bare hedge.1).append hpainted).append (.bare hedge.2))
    (.cons hrule (.cons .empty .nil)))

/-- A solid block is drawn alike, but for the colors of its spans. -/
theorem colored_blockLines {block : Block} (h : block.Solid) :
    List.Forall₂ Colored ((Canvas.painting headers).blockLines block)
      ((Canvas.bare headers).blockLines block) := by
  cases block with
  | heading text styled =>
    cases headers with
    | true => exact colored_headingLines true h styled
    | false => exact .nil
  | subHeading label count =>
    cases headers with
    | true => exact colored_subHeadingLines true h
    | false => exact .nil
  | @grid n grid =>
    rcases h with ⟨hn, hopen⟩ | htextual
    · obtain ⟨m, rfl⟩ := Nat.exists_eq_succ_of_ne_zero (Nat.ne_of_gt hn)
      exact colored_gridLines_open headers hopen
    · simp only [Canvas.blockLines]
      rw [htextual.gridLines_eq (Canvas.painting headers) (Canvas.bare headers),
        List.forall₂_same]
      exact fun line hline => .bare (htextual.clear_gridLines _ line hline)
  | line text => exact .cons (colored_paint headers h) .nil
  | blank => exact .cons .empty .nil

end Canvases
end StringReport
