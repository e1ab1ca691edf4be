import StringReport.Proofs.OneLineTables
import StringReport.Report.Routines

/-!
# The tables of records

The tables of frame strings and of decoded strings have no frame, and every cell of them stands
on one line: what does not come out of the sanitizer is a number or the name of a region.
-/
namespace StringReport

variable (policy : Policy)

theorem inert_frameColumns (rows : List (Vector StyledText 4)) :
    ∀ name ∈ (frameGrid policy rows).columns.toList, Inert name.toList := by
  have hcolumns : ∀ name ∈ ["Function", "Function Offset", "Frame Offset", "String"],
      Inert name.toList := by decide
  exact hcolumns

theorem inert_decodedColumns (rows : List (Vector StyledText 3)) :
    ∀ name ∈ (decodedGrid policy rows).columns.toList, Inert name.toList := by
  have hcolumns : ∀ name ∈ ["Offset", "Called At", "String"], Inert name.toList := by decide
  exact hcolumns

theorem back_frameRow (sanitizer : Sanitizer) (s : FrameString) :
    (frameRow sanitizer s).value.back = .value (sanitizer s.string false) := rfl

theorem back_decodedRow (sanitizer : Sanitizer) (s : DecodedString) :
    (decodedRow sanitizer s).value.back = .value (sanitizer s.string false) := rfl

theorem shown_plain {text : String} (h : Inert text.toList) :
    (StyledText.plain text).Shown := .single h

theorem shown_value {text : String} (h : Inert text.toList) :
    (StyledText.value text).Shown := .single h

theorem shown_frameRow (s : FrameString) :
    ∀ cell ∈ (frameRow .terminal s).value.toList, cell.Shown := by
  simp only [frameRow, frameCells, Sanitizer.display, Traced.value_bind, Traced.value_pure]
  intro cell hcell
  simp only [Vector.toList_mk, List.mem_cons, List.not_mem_nil, or_false] at hcell
  rcases hcell with rfl | rfl | rfl | rfl
  · exact shown_plain (inert_upper _)
  · exact shown_plain (inert_upper _)
  · exact shown_plain (inert_upper _)
  · exact shown_value (inert_terminal _ _)

theorem shown_decodedRow (s : DecodedString) :
    ∀ cell ∈ (decodedRow .terminal s).value.toList, cell.Shown := by
  simp only [decodedRow, decodedCells, Sanitizer.display, Traced.value_bind, Traced.value_pure]
  intro cell hcell
  simp only [Vector.toList_mk, List.mem_cons, List.not_mem_nil, or_false] at hcell
  rcases hcell with rfl | rfl | rfl
  · exact shown_plain (inert_location s)
  · exact shown_plain (inert_address _)
  · exact shown_value (inert_terminal _ _)

theorem open_frameGrid (strings : List FrameString) :
    (frameGrid policy (strings.map fun s => (frameRow .terminal s).value)).Open where
  border := rfl
  names := inert_frameColumns policy _
  cells row hrow := by
    obtain ⟨s, -, rfl⟩ := List.mem_map.1 hrow
    exact shown_frameRow s

theorem open_decodedGrid (strings : List DecodedString) :
    (decodedGrid policy (strings.map fun s => (decodedRow .terminal s).value)).Open where
  border := rfl
  names := inert_decodedColumns policy _
  cells row hrow := by
    obtain ⟨s, -, rfl⟩ := List.mem_map.1 hrow
    exact shown_decodedRow s

end StringReport
