import StringReport.Proofs.CountedSections
import StringReport.Proofs.ExactCells

/-!
# Sections without colors

Without colors a section is its texts alone. The text of its heading comes first, and what stands
below it are lines; a label among them is drawn as a box whose rules have a dash for each
character of the label and for the space on both sides of it.
-/
namespace StringReport

/-- The lines of a text in a box. -/
def boxLines (text : String) : List String :=
  let rule := "+" ++ String.ofList (List.replicate (text.length + 2) '-') ++ "+"
  [rule, "| " ++ text ++ " |", rule]

namespace Report

variable (policy : Policy)

/-- The text of the heading of a section: three lines and an empty one, if headers are shown. -/
def headingText (label : String) (count : Nat) : String :=
  let title := countedTitle label count
  endedLines (if policy.headers then ruledLines policy title (displayWidth title) else [])

/-- The lines of a label with a count: a box and an empty line, if headers are shown. -/
def labelLines (label : String) (count : Nat) : List String :=
  if policy.headers then boxLines (label ++ " (" ++ toString count ++ ")") ++ [""] else []

theorem draw_sectionHeading (label : String) (count : Nat) :
    (canvas policy).draw [sectionHeading policy label count] = headingText policy label count := by
  rw [Canvas.draw_eq_endedLines, List.flatMap_singleton, sectionHeading, Canvas.blockLines]
  exact congrArg endedLines (if_congr Iff.rfl (headingLines_eq policy _) rfl)

/-- What stands below the heading of a section are the lines of its other blocks. -/
theorem draw_heading_cons (label : String) (count : Nat) (blocks : List Block) :
    (canvas policy).draw (sectionHeading policy label count :: blocks) =
      headingText policy label count ++ endedLines (blocks.flatMap (canvas policy).blockLines) := by
  rw [← List.singleton_append, Canvas.draw_append, draw_sectionHeading, Canvas.draw_eq_endedLines]

variable {policy} (hcolors : policy.colorsEnabled = false)
include hcolors

theorem paint_of_colorsEnabled (t : StyledText) : (canvas policy).paint t = t.toPlain :=
  (canvas policy).paint_of_colorless hcolors t

/-- A label is drawn as its text in a box. -/
theorem blockLines_label {label : StyledText} (h : Printable label.toPlain.toList) (count : Nat) :
    (canvas policy).blockLines (.subHeading label count) =
      labelLines policy label.toPlain count := by
  let text := label.toPlain ++ " (" ++ toString count ++ ")"
  have hpainted : (canvas policy).paint (label.push (" (" ++ toString count ++ ")") .plain) =
      text := by
    rw [paint_of_colorsEnabled hcolors, StyledText.toPlain_push]
    simp only [text, String.append_assoc]
  have hprintable : Printable text.toList := by
    have hcount := printable_labelCount count
    simp only [text, String.toList_append, printable_append] at hcount ⊢
    exact ⟨⟨⟨h, hcount.1.1⟩, hcount.1.2⟩, hcount.2⟩
  have hwidth : tableWidth text = text.length := by
    rw [tableWidth_eq_textWidth hprintable.inert.unescaped, textWidth_of_printable hprintable,
      String.length_toList]
  have hrule : Canvas.boxRule text.length =
      "+" ++ String.ofList (List.replicate (text.length + 2) '-') ++ "+" := by
    simp [Canvas.boxRule, joinLine, ruleParts]
  have hone : '\n' ∉ ((canvas policy).paint
      (label.push (" (" ++ toString count ++ ")") .plain)).toList := by
    rw [hpainted]
    exact hprintable.inert.newline_notMem
  have hlines := (canvas policy).subHeadingLines_eq hone
  simp only [hpainted, hwidth, hrule] at hlines
  rw [Canvas.blockLines, labelLines]
  exact if_congr Iff.rfl hlines rfl

end Report
end StringReport
