import Mathlib.Data.List.DropRight
import Mathlib.Data.List.Forall2
import StringReport.Proofs.ExactCells
import StringReport.Proofs.NumberDigits
import StringReport.Proofs.OneLineTables

/-!
# Tables that are read back

A line of a table without a frame is read from its left: it is cut at as many bars as there are
columns but the last, the spaces that fill the cells up are left out, and what follows the last of
these bars and one space is the text of the last column. That text may hold bars itself and may
begin and end with spaces; the cells before it may not. The widths of the columns, which depend on
all rows and on whether the names are shown, need not be known for it.
-/
namespace StringReport

/-! ## Cells -/

/-- A text without the spaces around it. -/
def withoutMargins (text : List Char) : List Char :=
  (text.dropWhile (· = ' ')).rdropWhile (· = ' ')

/-- A text that is read back from a column: it holds no bar and has no spaces around it. -/
structure IsCell (text : List Char) : Prop where
  bar : '|' ∉ text
  first : text.head? ≠ some ' '
  last : text.getLast? ≠ some ' '

theorem isCell_of_forall {text : List Char} (h : ∀ c ∈ text, c ≠ '|' ∧ c ≠ ' ') : IsCell text where
  bar hmem := (h _ hmem).1 rfl
  first hfirst := (h _ (List.mem_of_head? hfirst)).2 rfl
  last hlast := (h _ (List.mem_of_getLast? hlast)).2 rfl

instance (text : List Char) : Decidable (IsCell text) :=
  decidable_of_iff ('|' ∉ text ∧ text.head? ≠ some ' ' ∧ text.getLast? ≠ some ' ')
    ⟨fun h => ⟨h.1, h.2.1, h.2.2⟩, fun h => ⟨h.bar, h.first, h.last⟩⟩

theorem rdropWhile_append_spaces {text : List Char} (h : text.getLast? ≠ some ' ') (n : Nat) :
    (text ++ List.replicate n ' ').rdropWhile (· = ' ') = text := by
  induction n with
  | zero =>
    rw [List.replicate_zero, List.append_nil]
    rcases List.eq_nil_or_concat' text with rfl | ⟨before, last, rfl⟩
    · rfl
    · exact List.rdropWhile_concat_neg _ _ _ (by simpa using h)
  | succ n ih =>
    rw [List.replicate_succ', ← List.append_assoc, List.rdropWhile_concat_pos _ _ _ (by simp), ih]

/-- A cell is what is left between the spaces around it. -/
theorem withoutMargins_filled {text : List Char} (h : IsCell text) (n : Nat) :
    withoutMargins (' ' :: (text ++ List.replicate n ' ')) = text := by
  rw [withoutMargins, List.dropWhile_cons_of_pos (by simp)]
  cases text with
  | nil => simp
  | cons c text =>
    have hc : c ≠ ' ' := fun heq => h.first (heq ▸ rfl)
    rw [List.cons_append, List.dropWhile_cons_of_neg (by simpa using hc), ← List.cons_append,
      rdropWhile_append_spaces h.last]

/-- Digits of either case after `0x` are a cell. -/
theorem isCell_digits {form : Char → Char}
    (hform : ∀ d < 16, form (Nat.digitChar d) ≠ '|' ∧ form (Nat.digitChar d) ≠ ' ') (n : Nat) :
    IsCell ("0x" ++ String.ofList ((Hex.digits n).map form)).toList := by
  refine isCell_of_forall fun c hc => ?_
  rw [String.toList_append] at hc
  rcases List.mem_append.1 hc with hc | hc
  · have hbefore : "0x".toList.all (fun c => c ≠ '|' ∧ c ≠ ' ') = true := by decide
    simpa using List.all_eq_true.1 hbefore c hc
  · rw [String.toList_ofList] at hc
    obtain ⟨digit, hdigit, rfl⟩ := List.mem_map.1 hc
    obtain ⟨d, hd, rfl⟩ := exists_digit_of_mem_toDigits (by decide) n hdigit
    exact hform d hd

theorem isCell_upper (value : UInt64) : IsCell (Hex.upper value).toList :=
  isCell_digits (by decide) _

theorem isCell_address (value : UInt64) : IsCell (Hex.address value).toList := by
  have hcell : IsCell ("0x" ++ String.ofList ((Hex.digits value.toNat).map id)).toList :=
    isCell_digits (by decide) _
  rwa [List.map_id] at hcell

/-! ## Lines -/

/-- The cells of a line up to the given number of bars, and the text of the last column. -/
def readRow : Nat → List Char → Option (List String × String)
  | 0, ' ' :: last => some ([], String.ofList last)
  | 0, _ => none
  | n + 1, text =>
    match text.dropWhile (· ≠ '|') with
    | [] => none
    | _ :: rest => (readRow n rest).map fun row =>
        (String.ofList (withoutMargins (text.takeWhile (· ≠ '|'))) :: row.1, row.2)

theorem readRow_succ {cell : List Char} (h : '|' ∉ cell) (n : Nat) (rest : List Char) :
    readRow (n + 1) (cell ++ '|' :: rest) =
      (readRow n rest).map fun row => (String.ofList (withoutMargins cell) :: row.1, row.2) := by
  have hcell : ∀ c ∈ cell, decide (c ≠ '|') = true := by
    intro c hc
    rw [decide_eq_true_eq]
    rintro rfl
    exact h hc
  have htake : (cell ++ '|' :: rest).takeWhile (· ≠ '|') = cell := by
    rw [List.takeWhile_append_of_pos hcell, List.takeWhile_cons_of_neg (by simp), List.append_nil]
  have hdrop : (cell ++ '|' :: rest).dropWhile (· ≠ '|') = '|' :: rest := by
    rw [List.dropWhile_append_of_pos hcell, List.dropWhile_cons_of_neg (by simp)]
  rw [readRow, htake, hdrop]

/-- Nothing is read where there is no bar. -/
theorem readRow_of_notMem {text : List Char} (h : '|' ∉ text) (n : Nat) :
    readRow (n + 1) text = none := by
  have hdrop : text.dropWhile (· ≠ '|') = [] := by
    refine List.dropWhile_eq_nil_iff.2 fun c hc => ?_
    rw [decide_eq_true_eq]
    rintro rfl
    exact h hc
  rw [readRow, hdrop]

theorem toList_openLine_cons (width : Nat) (widths : List Nat) (text : String)
    (texts : List String) (last : String) :
    (openLine (width :: widths) (text :: texts) last).toList =
      ' ' :: (text.toList ++ List.replicate (width - tableWidth text + 1) ' ') ++
        '|' :: (openLine widths texts last).toList := by
  have hparts : ∃ part parts, closedParts widths texts ++ [" " ++ last] = part :: parts := by
    cases hclosed : closedParts widths texts with
    | nil => exact ⟨_, _, rfl⟩
    | cons part parts => exact ⟨_, _, rfl⟩
  obtain ⟨part, parts, hparts⟩ := hparts
  have hline : openLine (width :: widths) (text :: texts) last =
      "|".intercalate ((" " ++ fillTo width text ++ " ") :: part :: parts) := by
    rw [← hparts]
    rfl
  rw [hline, String.intercalate_cons_cons, openLine, hparts]
  simp [fillTo, List.replicate_succ']

/-- The texts of a line are read back, whatever the widths of its columns are. -/
theorem readRow_openLine {texts : List String} (htexts : ∀ text ∈ texts, IsCell text.toList)
    {widths : List Nat} (hlength : widths.length = texts.length) (last : String) :
    readRow texts.length (openLine widths texts last).toList = some (texts, last) := by
  induction texts generalizing widths with
  | nil =>
    obtain rfl := List.length_eq_zero_iff.1 hlength
    have hline : (openLine [] [] last).toList = ' ' :: last.toList := by
      simp [openLine, closedParts]
    rw [hline, List.length_nil, readRow, String.ofList_toList]
  | cons text texts ih =>
    obtain ⟨htext, htexts⟩ := List.forall_mem_cons.1 htexts
    obtain ⟨width, widths, rfl⟩ := List.exists_cons_of_length_eq_add_one hlength
    have hbar : '|' ∉ ' ' :: (text.toList ++ List.replicate (width - tableWidth text + 1) ' ') := by
      simp [htext.bar]
    rw [toList_openLine_cons, List.length_cons, readRow_succ hbar,
      ih htexts (Nat.succ.inj hlength), withoutMargins_filled htext]
    simp

/-! ## Tables -/

/-- Lines of a table: if there are headers, one that gives the names of the columns and a rule of
dashes; then one for each row, that gives its cells and the text of its last column. -/
def TableOf (headers : Bool) (n : Nat) (names : List String × String)
    (rows : List (List String × String)) (lines : List String) : Prop :=
  ∃ (header : String) (widths : List Nat) (data : List String),
    lines = (if headers then [header, "+".intercalate (ruleParts widths)] else []) ++ data ∧
    readRow n header.toList = some names ∧ widths.length = n + 1 ∧
    List.Forall₂ (fun row line => readRow n line.toList = some row) rows data ∧
    ∀ line ∈ lines, '\n' ∉ line.toList

theorem TableOf.newline_notMem {headers : Bool} {n : Nat} {names : List String × String}
    {rows : List (List String × String)} {lines : List String}
    (h : TableOf headers n names rows lines) : ∀ line ∈ lines, '\n' ∉ line.toList := by
  obtain ⟨_, _, _, _, _, _, _, hone⟩ := h
  exact hone

/-- Nothing is read from the rule of a table with more than one column. -/
theorem readRow_rule (widths : List Nat) (n : Nat) :
    readRow (n + 1) ("+".intercalate (ruleParts widths)).toList = none := by
  apply readRow_of_notMem
  rw [String.toList_intercalate]
  intro hbar
  rcases mem_intercalate hbar with hbar | ⟨part, hpart, hbar⟩
  · exact absurd hbar (by decide)
  · simp only [ruleParts, List.map_map, List.mem_map, Function.comp_apply] at hpart
    obtain ⟨width, -, rfl⟩ := hpart
    rw [String.toList_ofList] at hbar
    exact absurd (List.eq_of_mem_replicate hbar) (by decide)

/-- What is read from all lines of a table is what is read from its rows, if the names of the
columns are not read. -/
theorem TableOf.filterMap_readRow {headers : Bool} {n : Nat} {names : List String × String}
    {rows : List (List String × String)} {lines : List String}
    (h : TableOf headers (n + 1) names rows lines) {α : Type}
    {read : List String × String → Option α} (hnames : read names = none) :
    lines.filterMap (fun line => (readRow (n + 1) line.toList).bind read) =
      rows.filterMap read := by
  obtain ⟨header, widths, data, rfl, hheader, -, hdata, -⟩ := h
  have hbefore : (if headers then [header, "+".intercalate (ruleParts widths)] else []).filterMap
      (fun line => (readRow (n + 1) line.toList).bind read) = [] := by
    cases headers with
    | false => rfl
    | true =>
      simp only [if_true, List.filterMap_cons, List.filterMap_nil, readRow_rule, hheader,
        Option.bind_some, Option.bind_none, hnames]
  have hafter : data.filterMap (fun line => (readRow (n + 1) line.toList).bind read) =
      rows.filterMap read := by
    induction hdata with
    | nil => rfl
    | cons hline _ ih => simp only [List.filterMap_cons, hline, Option.bind_some, ih]
  rw [List.filterMap_append, hbefore, hafter, List.nil_append]

theorem Grid.length_openWidths {m : Nat} (grid : Grid (m + 1)) : grid.openWidths.length = m := by
  refine length_foldl_widestOf (fun widths hwidths => ?_) List.length_replicate
  obtain ⟨row, -, rfl⟩ := List.mem_map.1 hwidths
  simp

namespace Canvas

variable {canvas : Canvas} (hcolors : canvas.colors = false) {m : Nat} {grid : Grid (m + 1)}
include hcolors

theorem readRow_openRow {row : Vector StyledText (m + 1)}
    (h : ∀ cell ∈ row.pop.toList, IsCell cell.toPlain.toList) :
    readRow m (canvas.openRow grid row).toList =
      some (row.pop.toList.map StyledText.toPlain, row.back.toPlain) := by
  let texts := row.pop.toList.map StyledText.toPlain
  have hlength : texts.length = m := by simp [texts]
  have htexts : ∀ text ∈ texts, IsCell text.toList := by
    intro text htext
    obtain ⟨cell, hcell, rfl⟩ := List.mem_map.1 htext
    exact h cell hcell
  have hpaint : canvas.paint = StyledText.toPlain :=
    funext fun cell => canvas.paint_of_colorless hcolors cell
  have hread := readRow_openLine htexts (grid.length_openWidths.trans hlength.symm)
    row.back.toPlain
  rw [hlength] at hread
  rw [openRow, hpaint, hread]

/-- A grid of cells that are read back is drawn as a table of them. -/
theorem tableOf_gridLines (hopen : grid.Open)
    (hnames : ∀ name ∈ grid.columns.pop.toList, IsCell name.toList)
    (hcells : ∀ row ∈ grid.rows, ∀ cell ∈ row.pop.toList, IsCell cell.toPlain.toList) :
    TableOf grid.showHeader m (grid.columns.pop.toList, grid.columns.back)
      (grid.rows.map fun row => (row.pop.toList.map StyledText.toPlain, row.back.toPlain))
      (canvas.gridLines grid) := by
  refine ⟨canvas.openRow grid (grid.columns.map .plain), grid.openWidths ++ [grid.lastWidth],
    grid.rows.map (canvas.openRow grid), canvas.gridLines_of_open hopen, ?_, ?_, ?_,
    canvas.newline_notMem_gridLines grid⟩
  · have hplain : StyledText.toPlain ∘ StyledText.plain = id := funext StyledText.toPlain_plain
    have hpop : (grid.columns.map StyledText.plain).pop.toList =
        grid.columns.pop.toList.map StyledText.plain := by
      rw [← Vector.map_pop, Vector.toList_map]
    have hback : (grid.columns.map StyledText.plain).back.toPlain = grid.columns.back := by
      rw [← lastOf_eq_back, lastOf_map, StyledText.toPlain_plain, lastOf_eq_back]
    rw [readRow_openRow hcolors, hpop, hback, List.map_map, hplain, List.map_id]
    rw [hpop]
    exact List.forall_mem_map.2 fun name hname => by
      rw [StyledText.toPlain_plain]
      exact hnames name hname
  · rw [List.length_append, grid.length_openWidths]
    rfl
  · rw [List.forall₂_map_left_iff, List.forall₂_map_right_iff, List.forall₂_same]
    exact fun row hrow => readRow_openRow hcolors (hcells row hrow)

/-- A table of records is read back if the texts in its columns but the last are. -/
theorem tableOf_records {α : Type} {records : List α} {row : α → Vector StyledText (m + 1)}
    {cells : α → List String} {last : α → String} (hopen : grid.Open)
    (hrows : grid.rows = records.map row)
    (hpop : ∀ record, (row record).pop.toList = (cells record).map .plain)
    (hback : ∀ record, (row record).back = .value (last record))
    (hnames : ∀ name ∈ grid.columns.pop.toList, IsCell name.toList)
    (hcells : ∀ record, ∀ text ∈ cells record, IsCell text.toList) :
    TableOf grid.showHeader m (grid.columns.pop.toList, grid.columns.back)
      (records.map fun record => (cells record, last record)) (canvas.gridLines grid) := by
  have hplain : StyledText.toPlain ∘ StyledText.plain = id := funext StyledText.toPlain_plain
  have htexts (record : α) :
      ((row record).pop.toList.map StyledText.toPlain, (row record).back.toPlain) =
        (cells record, last record) := by
    rw [hpop, hback, List.map_map, hplain, List.map_id, StyledText.toPlain_value]
  have htable := tableOf_gridLines hcolors hopen hnames fun _ hrow cell hcell => by
    rw [hrows] at hrow
    obtain ⟨record, -, rfl⟩ := List.mem_map.1 hrow
    rw [hpop] at hcell
    obtain ⟨text, htext, rfl⟩ := List.mem_map.1 hcell
    rw [StyledText.toPlain_plain]
    exact hcells record text htext
  rw [hrows, List.map_map] at htable
  rwa [← List.map_congr_left fun record _ => htexts record]

end Canvas
end StringReport
