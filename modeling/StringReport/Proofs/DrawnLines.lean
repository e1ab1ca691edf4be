import StringReport.Layout.Drawing
import StringReport.Proofs.TextLines

/-!
# The lines that grids are drawn with

What holds of the lines of all cells, and of the marks that a grid draws between them, holds
of the drawn lines, if putting lines together keeps it and cutting filling off again does too.
So a property of drawn lines is shown for single cells only.

How many lines a grid takes is told by the heights of its rows alone, and no drawn line holds
a line feed, whatever stands in the cells.
-/
namespace StringReport

/-- A property that drawn lines have if their cells have it. -/
structure LineProperty (P : List Char → Prop) : Prop where
  nil : P []
  append {a b : List Char} : P a → P b → P (a ++ b)
  mark {c : Char} : c ∈ [' ', '-', '+', '|'] → P [c]
  strip {a : List Char} {n : Nat} : P (a ++ List.replicate n ' ') → P a

namespace LineProperty

variable {P : List Char → Prop} (hP : LineProperty P)

include hP

theorem replicate {c : Char} (hc : c ∈ [' ', '-', '+', '|']) (n : Nat) :
    P (List.replicate n c) := by
  induction n with
  | zero => exact hP.nil
  | succ n ih => exact hP.append (hP.mark hc) ih

theorem space : P " ".toList := by simpa using hP.mark (c := ' ') (by simp)

theorem bar : P "|".toList := by simpa using hP.mark (c := '|') (by simp)

theorem crossing : P "+".toList := by simpa using hP.mark (c := '+') (by simp)

theorem intercalate {separator : List Char} {parts : List (List Char)} (hs : P separator)
    (h : ∀ part ∈ parts, P part) : P (separator.intercalate parts) := by
  induction parts with
  | nil => exact hP.nil
  | cons part parts ih =>
    have ih := ih fun p hp => h p (List.mem_cons_of_mem _ hp)
    cases parts with
    | nil => simpa using h part List.mem_cons_self
    | cons next parts =>
      rw [List.intercalate_cons_cons]
      exact hP.append (hP.append (h part List.mem_cons_self) hs) ih

theorem fillTo {s : String} (h : P s.toList) (width : Nat) : P (fillTo width s).toList := by
  rw [StringReport.fillTo, String.toList_append, toList_spaces]
  exact hP.append h (hP.replicate (by simp) _)

theorem recordLine {record : List Cell} (h : ∀ cell ∈ record, ∀ line ∈ cell, P line.toList)
    (widths : List Nat) (i : Nat) : ∀ part ∈ recordLine widths record i, P part.toList := by
  intro part hpart
  obtain ⟨j, hj, rfl⟩ := List.mem_iff_getElem.1 hpart
  simp only [StringReport.recordLine, List.getElem_zipWith, String.toList_append]
  simp only [StringReport.recordLine, List.length_zipWith] at hj
  have hcell : record[j] ∈ record := List.getElem_mem _
  have hline : P ((record[j][i]?).getD "").toList := by
    cases hi : record[j][i]? with
    | none => simpa using hP.nil
    | some line => exact h _ hcell line (List.mem_of_getElem? hi)
  exact hP.append (hP.append hP.space (hP.fillTo hline _)) hP.space

theorem joinLine {bar : String} (hbar : P bar.toList) {parts : List String}
    (h : ∀ part ∈ parts, P part.toList) (border : Border) :
    P (joinLine border bar parts).toList := by
  have hjoined : P (bar.intercalate parts).toList := by
    rw [String.toList_intercalate]
    refine hP.intercalate hbar fun part hpart => ?_
    obtain ⟨s, hs, rfl⟩ := List.mem_map.1 hpart
    exact h s hs
  cases border with
  | framed =>
    simp only [StringReport.joinLine, String.toList_append]
    exact hP.append (hP.append hbar hjoined) hbar
  | inner => exact hjoined

theorem rule (border : Border) (widths : List Nat) :
    P (StringReport.joinLine border "+" (ruleParts widths)).toList := by
  refine hP.joinLine hP.crossing (fun part hpart => ?_) border
  obtain ⟨width, -, rfl⟩ := List.mem_map.1 hpart
  rw [String.toList_ofList]
  exact hP.replicate (by simp) _

theorem drawnRecord {record : List Cell} (h : ∀ cell ∈ record, ∀ line ∈ cell, P line.toList)
    (border : Border) (widths : List Nat) :
    ∀ line ∈ (recordLines widths record).map (StringReport.joinLine border "|"),
      P line.toList := by
  intro line hline
  obtain ⟨parts, hparts, rfl⟩ := List.mem_map.1 hline
  obtain ⟨i, -, rfl⟩ := List.mem_map.1 hparts
  exact hP.joinLine hP.bar (hP.recordLine h widths i) border

/-- What holds of the lines of the cells of a table holds of its drawn lines. -/
theorem tableLines (border : Border) (n : Nat) {header : Option (List Cell)}
    {rows : List (List Cell)}
    (hheader : ∀ record ∈ header, ∀ cell ∈ record, ∀ line ∈ cell, P line.toList)
    (hrows : ∀ record ∈ rows, ∀ cell ∈ record, ∀ line ∈ cell, P line.toList) :
    ∀ line ∈ tableLines border n header rows, P line.toList := by
  unfold StringReport.tableLines
  split
  · simp
  · generalize columnWidths n (header.toList ++ rows) = widths
    have hrule := hP.rule border widths
    have hbody : ∀ line ∈ rows.flatMap fun record =>
        (recordLines widths record).map (StringReport.joinLine border "|"), P line.toList := by
      intro line hline
      obtain ⟨record, hrecord, hline⟩ := List.mem_flatMap.1 hline
      exact hP.drawnRecord (hrows record hrecord) border widths line hline
    intro line hline
    cases border with
    | framed =>
      cases header with
      | none =>
        simp only [List.cons_append, List.mem_cons, List.mem_append, List.not_mem_nil,
          or_false] at hline
        rcases hline with rfl | hline | rfl
        · exact hrule
        · exact hbody line hline
        · exact hrule
      | some header =>
        simp only [List.cons_append, List.mem_cons, List.mem_append] at hline
        rcases hline with rfl | hline | rfl | hline
        · exact hrule
        · exact hP.drawnRecord (hheader header rfl) .framed widths line hline
        · exact hrule
        · split at hline
          · cases hline
          · rcases List.mem_append.1 hline with hline | hline
            · exact hbody line hline
            · rw [List.mem_singleton.1 hline]
              exact hrule
    | inner =>
      cases header with
      | none => exact hbody line hline
      | some header =>
        simp only [List.mem_cons, List.mem_append] at hline
        rcases hline with hline | rfl | hline
        · exact hP.drawnRecord (hheader header rfl) .inner widths line hline
        · exact hrule
        · exact hbody line hline

theorem stripSpaces {line : String} (h : P line.toList) (count : Nat) :
    P (stripSpaces count line).toList := by
  unfold StringReport.stripSpaces
  split
  · next hsuffix =>
    obtain ⟨front, hfront⟩ := List.isSuffixOf_iff_suffix.1 hsuffix
    have hlength : line.length = front.length + count := by
      rw [← String.length_toList, ← hfront]
      simp
    have htake : line.toList.take (line.length - count) = front := by
      rw [hlength, ← hfront, Nat.add_sub_cancel]
      simp
    rw [String.toList_ofList, htake]
    rw [← hfront] at h
    exact hP.strip h
  · exact h

theorem stripFilling {lines : List String} (h : ∀ line ∈ lines, P line.toList) (width : Nat)
    (tails : List (Option Nat)) :
    ∀ line ∈ stripFilling width tails lines, P line.toList := by
  induction lines generalizing tails with
  | nil => cases tails with
    | nil => simp [StringReport.stripFilling]
    | cons tail tails => cases tail <;> simp [StringReport.stripFilling]
  | cons first lines ih =>
    have hlines := ih fun line hline => h line (List.mem_cons_of_mem _ hline)
    have hfirst := h first List.mem_cons_self
    cases tails with
    | nil => exact h
    | cons tail tails =>
      cases tail with
      | none =>
        simp only [StringReport.stripFilling, List.mem_cons, forall_eq_or_imp]
        exact ⟨hfirst, hlines tails⟩
      | some used =>
        simp only [StringReport.stripFilling, List.mem_cons, forall_eq_or_imp]
        exact ⟨hP.stripSpaces hfirst _, hlines tails⟩

/-- What holds of the lines of all painted cells of a grid holds of its drawn lines. -/
theorem gridLines {n : Nat} {grid : Grid n} {canvas : Canvas}
    (hcolumns : ∀ name ∈ grid.columns.toList, ∀ line ∈ Cell.ofText name, P line.toList)
    (hcells : ∀ row ∈ grid.rows, ∀ cell ∈ row.toList, ∀ line ∈ canvas.paintCell cell,
      P line.toList) :
    ∀ line ∈ canvas.gridLines grid, P line.toList := by
  unfold Canvas.gridLines
  split
  · simp
  · have hheader : ∀ record ∈ (if grid.showHeader then
        some (grid.columns.toList.map Cell.ofText) else none),
        ∀ cell ∈ record, ∀ line ∈ cell, P line.toList := by
      intro record hrecord cell hcell
      split at hrecord
      · obtain rfl : grid.columns.toList.map Cell.ofText = record := by simpa using hrecord
        obtain ⟨name, hname, rfl⟩ := List.mem_map.1 hcell
        exact hcolumns name hname
      · cases hrecord
    have hrows : ∀ record ∈ grid.rows.map fun row => row.toList.map canvas.paintCell,
        ∀ cell ∈ record, ∀ line ∈ cell, P line.toList := by
      intro record hrecord cell hcell
      obtain ⟨row, hrow, rfl⟩ := List.mem_map.1 hrecord
      obtain ⟨text, htext, rfl⟩ := List.mem_map.1 hcell
      exact hcells row hrow text htext
    have hdrawn := hP.tableLines grid.border n hheader hrows
    cases hborder : grid.border with
    | framed =>
      rw [hborder] at hdrawn
      exact hdrawn
    | inner =>
      rw [hborder] at hdrawn
      exact hP.stripFilling hdrawn _ _

end LineProperty

/-! ## Lines of cells -/

theorem length_foldl_widestOf {n : Nat} {widths : List (List Nat)}
    (h : ∀ record ∈ widths, record.length = n) {start : List Nat} (hstart : start.length = n) :
    (widths.foldl widestOf start).length = n := by
  induction widths generalizing start with
  | nil => exact hstart
  | cons record widths ih =>
    refine ih (fun other hother => h other (List.mem_cons_of_mem _ hother)) ?_
    rw [widestOf, List.length_zipWith, hstart, h record List.mem_cons_self, Nat.min_self]

/-- There is a width for every column. -/
theorem length_columnWidths {n : Nat} {records : List (List Cell)}
    (h : ∀ record ∈ records, record.length = n) : (columnWidths n records).length = n := by
  refine length_foldl_widestOf (fun widths hwidths => ?_) List.length_replicate
  obtain ⟨record, hrecord, rfl⟩ := List.mem_map.1 hwidths
  rw [List.length_map, h record hrecord]

theorem length_le_recordHeight {record : List Cell} {cell : Cell} (h : cell ∈ record) :
    cell.length ≤ recordHeight record :=
  List.le_max?_getD_of_mem (List.mem_map_of_mem h)

theorem infix_intercalate {α : Type} {part : List α} {parts : List (List α)} (h : part ∈ parts)
    (separator : List α) : part <:+: separator.intercalate parts := by
  induction parts with
  | nil => cases h
  | cons first parts ih =>
    cases parts with
    | nil =>
      simp only [List.mem_singleton.1 h, List.intercalate_singleton, List.infix_rfl]
    | cons next parts =>
      rw [List.intercalate_cons_cons, List.append_assoc]
      rcases List.mem_cons.1 h with rfl | h
      · exact (List.prefix_append _ _).isInfix
      · have hstands := ih h
        exact (hstands.trans (List.suffix_append _ _).isInfix).trans
          (List.suffix_append _ _).isInfix

theorem infix_joinLine {part : String} {parts : List String} (h : part ∈ parts)
    (border : Border) (bar : String) :
    part.toList <:+: (joinLine border bar parts).toList := by
  have hjoined : part.toList <:+: (bar.intercalate parts).toList := by
    rw [String.toList_intercalate]
    exact infix_intercalate (List.mem_map_of_mem h) _
  cases border with
  | framed =>
    simp only [joinLine, String.toList_append]
    exact hjoined.trans ⟨bar.toList, bar.toList, rfl⟩
  | inner => exact hjoined

/-- Each line of a cell stands on some line of its drawn record as it is. -/
theorem infix_recordLines {n : Nat} {widths : List Nat} (hwidths : widths.length = n)
    {record : List Cell} (hrecord : record.length = n) {cell : Cell} (hcell : cell ∈ record)
    {line : String} (hline : line ∈ cell) (border : Border) :
    ∃ drawn ∈ (recordLines widths record).map (joinLine border "|"),
      line.toList <:+: drawn.toList := by
  obtain ⟨j, hj, rfl⟩ := List.mem_iff_getElem.1 hcell
  obtain ⟨i, hi, rfl⟩ := List.mem_iff_getElem.1 hline
  have hheight : i < recordHeight record := Nat.lt_of_lt_of_le hi (length_le_recordHeight hcell)
  have hj' : j < widths.length := by omega
  let part := " " ++ fillTo widths[j] ((record[j][i]?).getD "") ++ " "
  have hpart : part ∈ recordLine widths record i := by
    refine List.mem_iff_getElem.2 ⟨j, by simp [recordLine]; omega, ?_⟩
    simp only [recordLine, List.getElem_zipWith, part]
  have hstands : record[j][i].toList <:+: part.toList := by
    simp only [part, fillTo, String.toList_append, List.getElem?_eq_getElem hi, Option.getD_some,
      List.append_assoc]
    exact ⟨" ".toList, _, rfl⟩
  refine ⟨_, List.mem_map_of_mem (List.mem_map_of_mem (List.mem_range.2 hheight)), ?_⟩
  exact hstands.trans (infix_joinLine hpart border "|")

/-- No line of a cell is left out of a table. -/
theorem infix_tableLines {n : Nat} (hn : n ≠ 0) (border : Border) {header : Option (List Cell)}
    {rows : List (List Cell)} (hheader : ∀ record ∈ header, record.length = n)
    (hrows : ∀ record ∈ rows, record.length = n) {record : List Cell} (hrecord : record ∈ rows)
    {cell : Cell} (hcell : cell ∈ record) {line : String} (hline : line ∈ cell) :
    ∃ drawn ∈ tableLines border n header rows, line.toList <:+: drawn.toList := by
  have hwidths : (columnWidths n (header.toList ++ rows)).length = n := by
    refine length_columnWidths fun other hother => ?_
    rcases List.mem_append.1 hother with hother | hother
    · exact hheader other (Option.mem_toList.1 hother)
    · exact hrows other hother
  obtain ⟨drawn, hdrawn, hstands⟩ :=
    infix_recordLines hwidths (hrows record hrecord) hcell hline border
  have hbody : drawn ∈ rows.flatMap fun record =>
      (recordLines (columnWidths n (header.toList ++ rows)) record).map (joinLine border "|") :=
    List.mem_flatMap.2 ⟨record, hrecord, hdrawn⟩
  refine ⟨drawn, ?_, hstands⟩
  rw [tableLines, if_neg hn]
  cases border with
  | framed =>
    cases header with
    | none => simp only [List.cons_append, List.mem_cons, List.mem_append, hbody, true_or, or_true]
    | some header =>
      have hne : rows.isEmpty = false := by
        rw [List.isEmpty_eq_false_iff]
        exact List.ne_nil_of_mem hrecord
      simp only [hne, Bool.false_eq_true, if_false, List.cons_append, List.mem_cons,
        List.mem_append, hbody, true_or, or_true]
  | inner =>
    cases header with
    | none => exact hbody
    | some header => simp only [List.mem_cons, List.mem_append, hbody, or_true]

/-- No line of a painted cell is left out of a framed grid. -/
theorem Canvas.infix_gridLines {n : Nat} (hn : n ≠ 0) (canvas : Canvas) {grid : Grid n}
    (hborder : grid.border = .framed) {row : Vector StyledText n} (hrow : row ∈ grid.rows)
    {cell : StyledText} (hcell : cell ∈ row.toList) {line : String}
    (hline : line ∈ canvas.paintCell cell) :
    ∃ drawn ∈ canvas.gridLines grid, line.toList <:+: drawn.toList := by
  have hempty : grid.isEmpty = false := by
    rw [Grid.isEmpty, List.isEmpty_eq_false_iff]
    exact List.ne_nil_of_mem hrow
  simp only [Canvas.gridLines, hempty, hborder, Bool.false_and, Bool.false_eq_true, if_false]
  refine infix_tableLines hn .framed (fun record hrecord => ?_) (fun record hrecord => ?_)
    (List.mem_map_of_mem hrow) (List.mem_map_of_mem hcell) hline
  · split at hrecord
    · obtain rfl := Option.mem_some.1 hrecord
      simp
    · cases hrecord
  · obtain ⟨other, -, rfl⟩ := List.mem_map.1 hrecord
    simp

end StringReport
