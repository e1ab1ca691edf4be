import StringReport.Layout.Drawing
import StringReport.Proofs.TextLines

/-!
# Cells of several lines

A cell of several lines carries the style from line to line. What is written to switch a style
on and off is made of codes, so it holds no line feed whatever the cell holds, and nothing is
written at all where no line has an escape character. Each line of a cell stands in the drawn
cell as it is, with what carries the style around it.
-/
namespace StringReport

namespace Style

/-- A style of which no color holds a line feed. -/
structure Quiet (style : Style) : Prop where
  foreground : ∀ color ∈ style.foreground, '\n' ∉ color.toList
  background : ∀ color ∈ style.background, '\n' ∉ color.toList
  underline : ∀ color ∈ style.underline, '\n' ∉ color.toList

theorem quiet_plain : Quiet plain := by
  constructor <;> intro color h <;> cases h

theorem newline_notMem_toString (code : Nat) : '\n' ∉ (toString code).toList :=
  (inert_toString code).newline_notMem

theorem Quiet.switch {style : Style} (h : Quiet style) (code : Nat) :
    Quiet (style.switch code) := by
  have hcode : ∀ color ∈ some (toString code), '\n' ∉ color.toList := by
    rintro color ⟨⟩
    exact newline_notMem_toString code
  have hnone : ∀ color ∈ (none : Option String), '\n' ∉ color.toList := by
    rintro color ⟨⟩
  unfold Style.switch
  split
  · exact ⟨hnone, hnone, hnone⟩
  split
  · exact ⟨hnone, h.background, h.underline⟩
  split
  · exact ⟨h.foreground, hnone, h.underline⟩
  split
  · exact ⟨h.foreground, h.background, hnone⟩
  split
  · exact ⟨hcode, h.background, h.underline⟩
  split
  · exact ⟨h.foreground, hcode, h.underline⟩
  split
  · exact ⟨h.foreground, h.background, h.underline⟩
  split
  · exact ⟨h.foreground, h.background, h.underline⟩
  · exact ⟨h.foreground, h.background, h.underline⟩

theorem Quiet.setColor {style : Style} (h : Quiet style) (codes : List Nat) :
    Quiet (style.setColor codes) := by
  have hcolor : ∀ color ∈ some (";".intercalate (codes.map toString)),
      '\n' ∉ color.toList := by
    rintro color ⟨⟩ hmem
    rw [String.toList_intercalate] at hmem
    rcases mem_intercalate hmem with hmem | ⟨part, hpart, hmem⟩
    · exact absurd hmem (by decide)
    · simp only [List.map_map, List.mem_map, Function.comp] at hpart
      obtain ⟨code, -, rfl⟩ := hpart
      exact newline_notMem_toString code hmem
  unfold Style.setColor
  split
  · exact ⟨hcolor, h.background, h.underline⟩
  · exact ⟨h.foreground, hcolor, h.underline⟩
  · exact ⟨h.foreground, h.background, hcolor⟩

theorem Quiet.carryOut {style : Style} (h : Quiet style) (codes : List (Option Nat)) :
    Quiet (style.carryOut codes) := by
  fun_induction Style.carryOut style codes with
  | case1 style => exact h
  | case2 style rest ih => exact ih ⟨h.foreground, h.background, h.underline⟩
  | case3 style code _ index rest ih => exact ih (h.setColor _)
  | case4 style code _ red green blue rest ih => exact ih (h.setColor _)
  | case5 style code _ rest => exact h
  | case6 style code _ head rest _ _ _ ih => exact ih h
  | case7 style code _ => exact h
  | case8 style code rest _ ih => exact ih (h.switch code)

/-- Reading a text keeps a style free of line feeds. -/
theorem Quiet.after {style : Style} (h : Quiet style) (text : String) :
    Quiet (style.after text) := by
  unfold Style.after
  generalize Terminal.styleSequences text.toList = sequences
  induction sequences generalizing style with
  | nil => exact h
  | cons sequence sequences ih => exact ih (h.carryOut _)

theorem newline_notMem_sequence {parameters : String} (h : '\n' ∉ parameters.toList) :
    '\n' ∉ (sequence parameters).toList := by
  simp [sequence, h]

theorem Quiet.newline_notMem_opening {style : Style} (h : Quiet style) :
    '\n' ∉ style.opening.toList := by
  unfold opening
  split
  · rw [String.toList_join]
    intro hmem
    obtain ⟨text, htext, hmem⟩ := List.mem_flatMap.1 hmem
    obtain ⟨parameters, hparameters, rfl⟩ := List.mem_map.1 htext
    refine newline_notMem_sequence ?_ hmem
    have hmarks (codes : List Nat) : parameters ∈ codes.map toString →
        '\n' ∉ parameters.toList := by
      intro hp
      obtain ⟨code, -, rfl⟩ := List.mem_map.1 hp
      exact newline_notMem_toString code
    simp only [List.mem_append] at hparameters
    rcases hparameters with (hp | hp) | hp
    · exact hmarks _ hp
    · simp only [List.mem_filterMap, List.mem_cons, id, List.not_mem_nil, or_false] at hp
      obtain ⟨color, rfl | rfl | rfl, hcolor⟩ := hp
      · exact h.foreground _ hcolor
      · exact h.background _ hcolor
      · exact h.underline _ hcolor
    · exact hmarks _ hp
  · simp

theorem newline_notMem_closing (style : Style) : '\n' ∉ style.closing.toList := by
  have hjoin (codes : List Nat) :
      '\n' ∉ (String.join (codes.map fun code => sequence (toString code))).toList := by
    rw [String.toList_join]
    intro hmem
    obtain ⟨text, htext, hmem⟩ := List.mem_flatMap.1 hmem
    obtain ⟨code, -, rfl⟩ := List.mem_map.1 htext
    exact newline_notMem_sequence (newline_notMem_toString code) hmem
  by_cases h : style.isCarried
  · simp only [closing, h, if_true]
    exact hjoin _
  · simp [closing, h]

theorem Quiet.newline_notMem_carry {style : Style} (h : Quiet style) {lines : List String}
    (hlines : ∀ line ∈ lines, '\n' ∉ line.toList) :
    ∀ line ∈ style.carry lines, '\n' ∉ line.toList := by
  induction lines generalizing style with
  | nil => simp [carry]
  | cons first lines ih =>
    have hafter := h.after first
    simp only [carry, List.mem_cons, forall_eq_or_imp]
    refine ⟨?_, ih hafter fun line hline => hlines line (List.mem_cons_of_mem _ hline)⟩
    split
    · simp
    · simp [h.newline_notMem_opening, newline_notMem_closing,
        hlines first List.mem_cons_self]

/-- Each line stands in its carried form as it is. -/
theorem exists_infix_carry (style : Style) {lines : List String} {line : String}
    (h : line ∈ lines) : ∃ carried ∈ style.carry lines, line.toList <:+: carried.toList := by
  induction lines generalizing style with
  | nil => cases h
  | cons first lines ih =>
    rcases List.mem_cons.1 h with rfl | h
    · refine ⟨_, List.mem_cons_self, ?_⟩
      split
      · next hempty => simp only [hempty, List.infix_rfl]
      · rw [String.toList_append, String.toList_append]
        exact ⟨_, _, rfl⟩
    · obtain ⟨carried, hcarried, hstands⟩ := ih (style.after first) h
      exact ⟨carried, List.mem_cons_of_mem _ hcarried, hstands⟩

end Style

/-! ## Cells -/

namespace Cell

@[simp] theorem length_ofLines (lines : List String) : (ofLines lines).length = lines.length := by
  unfold ofLines
  split
  · rfl
  · exact Style.length_carry _ _

theorem newline_notMem_ofLines {lines : List String}
    (h : ∀ line ∈ lines, '\n' ∉ line.toList) : ∀ line ∈ ofLines lines, '\n' ∉ line.toList := by
  unfold ofLines
  split
  · exact h
  · exact Style.quiet_plain.newline_notMem_carry h

/-- Without escape characters the lines of a cell are drawn as they are. -/
theorem ofLines_of_unescaped {lines : List String}
    (h : ∀ line ∈ lines, Character.escape ∉ line.toList) : ofLines lines = lines := by
  unfold ofLines
  split
  · rfl
  · refine Style.carry_of_plain fun line hline => Style.after_of_forall_ne ?_
    rintro c hc rfl
    exact h line hline hc

theorem ofLines_singleton (line : String) : ofLines [line] = [line] := rfl

theorem exists_infix_ofLines {lines : List String} {line : String} (h : line ∈ lines) :
    ∃ carried ∈ ofLines lines, line.toList <:+: carried.toList := by
  unfold ofLines
  split
  · exact ⟨line, h, List.infix_rfl⟩
  · exact Style.exists_infix_carry .plain h

end Cell
end StringReport
