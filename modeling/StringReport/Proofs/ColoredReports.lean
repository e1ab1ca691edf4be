import StringReport.Proofs.ColoredLines
import StringReport.Proofs.TameReports

/-!
# Reports with and without colors

Every block of a report is solid: what comes from records is sanitized and stands in spans of
one tone, and the metadata are plain texts, whatever lines they take. So a verbose report with
colors is, line by line, the one without colors with some spans enclosed in a pair of sequences.
The version and the language are shown as the document has them and must not bring sequences or
line ends of their own.
-/
namespace StringReport

/-! ## Sections -/

section

variable (policy : Policy)

theorem solid_offsetLine (offset : UInt64) (width : Nat) {value : String}
    (h : Inert value.toList) : (offsetLine policy offset width value).Solid := by
  have hoffset : Inert (Hex.offset offset width ++ " ").toList := by
    rw [String.toList_append, inert_append]
    exact ⟨inert_offset _ _, by decide⟩
  unfold offsetLine
  split
  · exact (StyledText.solid_single hoffset.clear .plain).push h.clear .value
  · exact StyledText.solid_single h.clear .plain

/-- A label of printable characters, of which a part is in another tone. -/
theorem solid_subHeading {before text : String} (hbefore : Printable before.toList)
    (htext : Printable text.toList) (tone : Tone) (count : Nat) :
    (Block.subHeading ((StyledText.plain before).push text tone) count).Solid :=
  ⟨(StyledText.solid_single hbefore.inert.clear .plain).push htext.inert.clear tone,
    _, fun canvas => canvas.tableWidth_paint_label tone hbefore htext (printable_labelCount count)⟩

theorem solid_encodingHeading (encoding : Encoding) (count : Nat) :
    (Block.subHeading (encodingLabel policy encoding) count).Solid := by
  have htitle : Printable (headingTitle "STATIC STRINGS: ").toList := by decide
  have hlabel : Printable encoding.label.toList := by cases encoding <;> decide
  unfold encodingLabel
  split
  · exact solid_subHeading htitle hlabel .accent count
  · have hall : Printable (headingTitle "STATIC STRINGS: " ++ encoding.label).toList := by
      rw [String.toList_append, printable_append]
      exact ⟨htitle, hlabel⟩
    rw [← StyledText.push_empty (StyledText.plain _) .accent]
    exact solid_subHeading hall (by decide) .accent count

theorem SectionBlock.solid {block : Block} (h : SectionBlock policy .terminal block) :
    block.Solid := by
  cases h with
  | heading count hlabel => exact (inert_sectionTitle hlabel count).clear
  | encoding encoding count => exact solid_encodingHeading policy encoding count
  | routine address count =>
    exact solid_subHeading (by decide) (printable_address address) .accent count
  | offsetLine offset width value asciiOnly =>
    exact solid_offsetLine policy offset width (inert_terminal value asciiOnly)
  | plainLine value => exact StyledText.solid_single (inert_terminal value false).clear .plain
  | frames strings => exact Or.inl ⟨by decide, open_frameGrid policy strings⟩
  | decoded strings => exact Or.inl ⟨by decide, open_decodedGrid policy strings⟩
  | blank => exact trivial

end

/-! ## The title -/

/-- The texts of the metadata that a report shows as they are have no control characters. -/
structure Metadata.ControlFree (metadata : Metadata) : Prop where
  version : ∀ c ∈ metadata.version.toList, Character.isControl c = false
  language : ∀ c ∈ metadata.language.toList, Character.isControl c = false
  languageVersion : ∀ c ∈ metadata.languageVersion.toList, Character.isControl c = false
  languageSelected : ∀ c ∈ metadata.languageSelected.toList, Character.isControl c = false

theorem clear_of_isControl {text : List Char}
    (h : ∀ c ∈ text, Character.isControl c = false) : Clear text :=
  ⟨fun hmem => absurd (h _ hmem) (by decide), fun hmem => absurd (h _ hmem) (by decide)⟩

theorem clear_append {a b : List Char} (ha : Clear a) (hb : Clear b) : Clear (a ++ b) :=
  clear_lineProperty.append ha hb

theorem Metadata.ControlFree.clear_languageSummary {metadata : Metadata}
    (h : metadata.ControlFree) : Clear metadata.languageSummary.toList := by
  have hlanguage := clear_of_isControl h.language
  have hversion := clear_of_isControl h.languageVersion
  have hselected := clear_of_isControl h.languageSelected
  have hmarks : Clear " (".toList ∧ Clear ")".toList ∧ Clear " - selected: ".toList := by decide
  have hempty : Clear "".toList := by decide
  rw [languageSummary, String.toList_append, String.toList_append]
  refine clear_append (clear_append hlanguage ?_) ?_
  · split
    · simp only [String.toList_append]
      exact clear_append (clear_append hmarks.1 hversion) hmarks.2.1
    · exact hempty
  · split
    · rw [String.toList_append]
      exact clear_append hmarks.2.2 hselected
    · exact hempty

/-- The metadata are texts in which no sequence begins. -/
theorem textual_metadataGrid {doc : Document} (h : doc.metadata.ControlFree) {path : String}
    (hpath : Inert path.toList) (verbose : Bool) :
    (Document.metadataGrid (doc.metadataRows verbose path)).Textual where
  names := by
    have hcolumns : ∀ name ∈ ["field", "value"], Clear name.toList := by decide
    exact hcolumns
  cells row hrow cell hcell := by
    obtain ⟨pair, hpair, rfl⟩ := List.mem_map.1 hrow
    have hescape {text : List Char} (htext : InertLines text) : Character.escape ∉ text :=
      fun hmem => absurd (htext _ hmem (by decide)) (by decide)
    have hlabels : Character.escape ∉ "version".toList ∧
        Character.escape ∉ "identified language".toList := by decide
    have hpairs : Character.escape ∉ pair.1.toList ∧ Character.escape ∉ pair.2.toList := by
      rcases Document.metadataRows_cases hpath hpair with hrow | rfl | rfl
      · exact ⟨hescape hrow.1, hescape hrow.2⟩
      · exact ⟨hlabels.1, (clear_of_isControl h.version).1⟩
      · exact ⟨hlabels.2, h.clear_languageSummary.1⟩
    rcases Document.mem_metadataRow.1 hcell with rfl | rfl
    · exact ⟨pair.1, hpairs.1, rfl⟩
    · exact ⟨pair.2, hpairs.2, rfl⟩

theorem solid_title (policy : Policy) {doc : Document} (h : doc.metadata.ControlFree) :
    ∀ block ∈ (Report.sectionBlocks policy .terminal doc .title).value, block.Solid := by
  intro block hblock
  simp only [Report.sectionBlocks, Document.metadataBlocks, Sanitizer.display, Traced.value_bind,
    Traced.value_pure, List.mem_cons, List.not_mem_nil, or_false] at hblock
  rcases hblock with rfl | rfl | rfl
  · have hmarks : Clear "STREX ".toList ∧ Clear "RESULTS (version ".toList ∧ Clear ")".toList := by
      decide
    have htitle : Clear (headingTitle
        ("RESULTS (version " ++ doc.metadata.version ++ ")")).toList := by
      simp only [headingTitle, String.toList_append]
      exact clear_append hmarks.1 (clear_append
        (clear_append hmarks.2.1 (clear_of_isControl h.version)) hmarks.2.2)
    show (Report.titleLine policy doc).Solid
    unfold Report.titleLine
    split
    · exact StyledText.solid_single htitle .accent
    · exact StyledText.solid_single htitle .plain
  · exact trivial
  · exact Or.inr (textual_metadataGrid h (inert_terminal _ _) _)

/-! ## Reports -/

namespace Report

theorem solid_blocks (policy : Policy) {doc : Document} (h : doc.metadata.ControlFree) :
    ∀ block ∈ (blocks policy .terminal doc).value, block.Solid := by
  intro block hblock
  rcases mem_blocks hblock with rfl | ⟨part, hpart, hblock⟩
  · exact trivial
  · by_cases htitle : part = .title
    · subst htitle
      exact solid_title policy h block hblock
    · exact (SectionBlock.of_mem_sectionBlocks htitle hblock).solid

/-- Colors decide on the canvas and on nothing else. -/
theorem blocks_always (headers terminal : Bool) (sanitizer : Sanitizer) (doc : Document) :
    blocks (.make .verbose headers .always terminal) sanitizer doc =
      blocks (.make .verbose headers .never terminal) sanitizer doc := rfl

theorem colored_lines {doc : Document} (h : doc.metadata.ControlFree) (headers terminal : Bool) :
    List.Forall₂ Colored (lines (.make .verbose headers .always terminal) .terminal doc)
      (lines (.make .verbose headers .never terminal) .terminal doc) := by
  have hsolid := solid_blocks (.make .verbose headers .never terminal) h
  unfold lines
  rw [blocks_always]
  generalize (blocks (.make .verbose headers .never terminal) .terminal doc).value = blocks
    at hsolid
  induction blocks with
  | nil => exact .nil
  | cons block blocks ih =>
    simp only [List.flatMap_cons]
    exact List.rel_append (colored_blockLines headers (hsolid block List.mem_cons_self))
      (ih fun other hother => hsolid other (List.mem_cons_of_mem _ hother))

end Report

/-- Colored lines, given by their spans. -/
theorem exists_spans_of_colored {colored plain : List String}
    (h : List.Forall₂ Colored colored plain) :
    ∃ lines : List (List Span), (∀ line ∈ lines, ∀ span ∈ line, span.Solid) ∧
      colored = lines.map Span.coloredLine ∧ plain = lines.map Span.plainLine := by
  induction h with
  | nil => exact ⟨[], by simp, rfl, rfl⟩
  | cons hline _ ih =>
    obtain ⟨spans, hspans, rfl, rfl⟩ := hline
    obtain ⟨lines, hlines, rfl, rfl⟩ := ih
    refine ⟨spans :: lines, fun line hline => ?_, rfl, rfl⟩
    rcases List.mem_cons.1 hline with rfl | hline
    · exact hspans
    · exact hlines line hline

namespace Report

/-- A verbose report with colors has the lines of the report without, some of their spans
enclosed in a sequence of a color and the one that takes it back. -/
theorem exists_spans_render_always {doc : Document} (h : doc.metadata.ControlFree)
    (disableHeaders terminal : Bool) :
    ∃ lines : List (List Span), (∀ line ∈ lines, ∀ span ∈ line, span.Solid) ∧
      (render ⟨.verbose, disableHeaders, "always"⟩ terminal .terminal doc).map Traced.value =
        .ok (String.join (lines.map fun line => (Span.coloredLine line).push '\n')) ∧
      (render ⟨.verbose, disableHeaders, "never"⟩ terminal .terminal doc).map Traced.value =
        .ok (String.join (lines.map fun line => (Span.plainLine line).push '\n')) ∧
      ∀ line ∈ lines,
        eraseColors (Span.coloredLine line).toList = (Span.plainLine line).toList := by
  obtain ⟨lines, hlines, hcolored, hplain⟩ :=
    exists_spans_of_colored (colored_lines h (!disableHeaders) terminal)
  have halways : ColorMode.ofPreference? "always" = some .always := by decide
  have hnever : ColorMode.ofPreference? "never" = some .never := by decide
  refine ⟨lines, hlines, ?_, ?_, fun line hline => eraseColors_coloredLine (hlines line hline)⟩
  · rw [render_of_color halways, Except.map, value_draw, hcolored, List.map_map]
    rfl
  · rw [render_of_color hnever, Except.map, value_draw, hplain, List.map_map]
    rfl

/-- A document with a mark that reorders text in its version, with strings that end in spaces
or have nothing in them, and with an escape character in a path. -/
def paddedSample : Document where
  metadata := { filePath := "a\x1b[0m.exe", version := "1.0\u200e", language := "go" }
  findings := {
    stack := [{ function := 1, string := "padded  ", programCounter := 2, frameOffset := 3 },
      { function := 1, string := "", programCounter := 2, frameOffset := 3 }]
    decoded := [{ region := .heap, string := "\x1b[36m", decodedAt := 1, routine := 7 }] }

theorem exists_spans_render_paddedSample :
    paddedSample.metadata.ControlFree ∧
    ∃ lines : List (List Span), (∀ line ∈ lines, ∀ span ∈ line, span.Solid) ∧
      (render ⟨.verbose, false, "always"⟩ true .terminal paddedSample).map Traced.value =
        .ok (String.join (lines.map fun line => (Span.coloredLine line).push '\n')) ∧
      (render ⟨.verbose, false, "never"⟩ true .terminal paddedSample).map Traced.value =
        .ok (String.join (lines.map fun line => (Span.plainLine line).push '\n')) ∧
      ∀ line ∈ lines,
        eraseColors (Span.coloredLine line).toList = (Span.plainLine line).toList := by
  have hall (text : List Char) (h : text.all fun c => !Character.isControl c) :
      ∀ c ∈ text, Character.isControl c = false := by simpa using h
  have hcontrol : paddedSample.metadata.ControlFree :=
    ⟨hall _ (by decide), hall _ (by decide), hall _ (by decide), hall _ (by decide)⟩
  exact ⟨hcontrol, exists_spans_render_always hcontrol false true⟩

end Report
end StringReport
