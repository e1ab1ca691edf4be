import StringReport.Proofs.MetadataTexts
import StringReport.Proofs.RecordTables
import StringReport.Proofs.SectionBlocks

/-!
# What a report passes on to a terminal

Every section but the title shows nothing but sanitized strings and texts of the report's own.
The title shows the version and the language as the document has them. So a report is safe to
look at exactly if these texts of the document are harmless by themselves: the language may
have line feeds, as its cell is split at them, but the version stands in the title line too.
-/
namespace StringReport

/-! ## Sections -/

section

variable (policy : Policy)

theorem inert_sectionTitle {label : String} (h : label ∈ sectionLabels) (count : Nat) :
    Inert (headingTitle (label ++ " STRINGS (" ++ toString count ++ ")")).toList := by
  have hlabels : ∀ label ∈ sectionLabels, Inert label.toList := by decide
  refine inert_headingTitle ?_
  simp only [String.toList_append, inert_append, inert_toString, and_true]
  exact ⟨⟨hlabels label h, by decide⟩, by decide⟩

theorem inert_offsetLine (offset : UInt64) (width : Nat) {value : String}
    (h : Inert value.toList) : Inert (offsetLine policy offset width value).toPlain.toList := by
  have hspace : Inert " ".toList := by decide
  unfold offsetLine
  split
  · simp only [StyledText.toPlain_push, StyledText.toPlain_plain, String.toList_append,
      inert_append, inert_offset, hspace, h, and_self]
  · rwa [StyledText.toPlain_plain]

theorem inert_encodingLabel (encoding : Encoding) :
    Inert (encodingLabel policy encoding).toPlain.toList := by
  have htitle : Inert (headingTitle "STATIC STRINGS: ").toList := by decide
  have hlabel : Inert encoding.label.toList := by cases encoding <;> decide
  unfold encodingLabel
  split
  · simp only [StyledText.toPlain_push, StyledText.toPlain_plain, String.toList_append,
      inert_append, htitle, hlabel, and_self]
  · simp only [StyledText.toPlain_plain, String.toList_append, inert_append, htitle, hlabel,
      and_self]

/-- What records hold comes into a report through the sanitizer only. -/
theorem SectionBlock.harmless {block : Block} (h : SectionBlock policy .terminal block) :
    block.Harmless := by
  cases h with
  | heading count hlabel => exact inert_sectionTitle hlabel count
  | encoding encoding count => exact inert_encodingLabel policy encoding
  | routine address count =>
    show Inert
      ((StyledText.plain " FUNCTION at ").push (Hex.address address) .accent).toPlain.toList
    rw [StyledText.toPlain_push, StyledText.toPlain_plain, String.toList_append, inert_append]
    exact ⟨by decide, inert_address _⟩
  | offsetLine offset width value asciiOnly =>
    exact inert_offsetLine policy offset width (inert_terminal value asciiOnly)
  | plainLine value =>
    show Inert (StyledText.plain (Sanitizer.terminal value false)).toPlain.toList
    rw [StyledText.toPlain_plain]
    exact inert_terminal value false
  | frames strings =>
    refine ⟨inert_frameColumns policy _, fun row hrow cell hcell => ?_⟩
    obtain ⟨s, -, rfl⟩ := List.mem_map.1 hrow
    exact (shown_frameRow s cell hcell).harmless
  | decoded strings =>
    refine ⟨inert_decodedColumns policy _, fun row hrow cell hcell => ?_⟩
    obtain ⟨s, -, rfl⟩ := List.mem_map.1 hrow
    exact (shown_decodedRow s cell hcell).harmless
  | blank => exact trivial

end

/-! ## The title -/

/-- The texts of the metadata that a report shows as they are have nothing in them that a
terminal obeys. -/
structure Metadata.Harmless (metadata : Metadata) : Prop where
  version : Inert metadata.version.toList
  language : InertLines metadata.language.toList
  /-- The version of an unknown language is not shown. -/
  languageVersion : metadata.language ≠ "unknown" → InertLines metadata.languageVersion.toList
  languageSelected : InertLines metadata.languageSelected.toList

theorem Metadata.inertLines_languageSummary_iff (metadata : Metadata) :
    InertLines metadata.languageSummary.toList ↔
      InertLines metadata.language.toList ∧
      (metadata.language ≠ "unknown" → InertLines metadata.languageVersion.toList) ∧
      InertLines metadata.languageSelected.toList := by
  have hopen : InertLines " (".toList := by decide
  have hclose : InertLines ")".toList := by decide
  have hselected : InertLines " - selected: ".toList := by decide
  have hempty : InertLines "".toList := by decide
  have hversion : InertLines (if metadata.language ≠ "unknown" ∧ metadata.languageVersion ≠ ""
      then " (" ++ metadata.languageVersion ++ ")" else "").toList ↔
      (metadata.language ≠ "unknown" → InertLines metadata.languageVersion.toList) := by
    by_cases hunknown : metadata.language = "unknown"
    · simp [hunknown, InertLines]
    · by_cases hnone : metadata.languageVersion = ""
      · simp [hnone, InertLines]
      · rw [if_pos ⟨hunknown, hnone⟩]
        simp only [String.toList_append, inertLines_append, hopen, hclose, true_and, and_true]
        exact ⟨fun h _ => h, fun h => h hunknown⟩
  have hchosen : InertLines (if metadata.languageSelected ≠ ""
      then " - selected: " ++ metadata.languageSelected else "").toList ↔
      InertLines metadata.languageSelected.toList := by
    by_cases hnone : metadata.languageSelected = ""
    · simp [hnone, InertLines]
    · rw [if_pos hnone]
      simp only [String.toList_append, inertLines_append, hselected, true_and]
  rw [Metadata.languageSummary, String.toList_append, String.toList_append, inertLines_append,
    inertLines_append, hversion, hchosen, and_assoc]

theorem Metadata.harmless_iff (metadata : Metadata) :
    metadata.Harmless ↔
      Inert metadata.version.toList ∧ InertLines metadata.languageSummary.toList := by
  rw [inertLines_languageSummary_iff]
  exact ⟨fun h => ⟨h.version, h.language, h.languageVersion, h.languageSelected⟩,
    fun ⟨hv, hl, hlv, hs⟩ => ⟨hv, hl, hlv, hs⟩⟩

theorem harmless_metadataGrid {rows : List Metadata.Row}
    (h : ∀ row ∈ rows, Document.InertRow row) :
    (Block.grid (Document.metadataGrid rows)).Harmless := by
  have hcolumns : ∀ name ∈ ["field", "value"], Inert name.toList := by decide
  refine ⟨hcolumns, fun row hrow cell hcell => ?_⟩
  obtain ⟨pair, hpair, rfl⟩ := List.mem_map.1 hrow
  rcases Document.mem_metadataRow.1 hcell with rfl | rfl
  · exact .lines (h pair hpair).1
  · exact .lines (h pair hpair).2

/-- The title is harmless if the metadata is. -/
theorem harmless_title (policy : Policy) {doc : Document} (h : doc.metadata.Harmless) :
    ∀ block ∈ (Report.sectionBlocks policy .terminal doc .title).value, block.Harmless := by
  intro block hblock
  simp only [Report.sectionBlocks, Document.metadataBlocks, Sanitizer.display, Traced.value_bind,
    Traced.value_pure, List.mem_cons, List.not_mem_nil, or_false] at hblock
  rcases hblock with rfl | rfl | rfl
  · have htitle : Inert (headingTitle
        ("RESULTS (version " ++ doc.metadata.version ++ ")")).toList := by
      refine inert_headingTitle ?_
      simp only [String.toList_append, inert_append]
      exact ⟨⟨by decide, h.version⟩, by decide⟩
    show Inert (Report.titleLine policy doc).toPlain.toList
    unfold Report.titleLine
    split
    · rwa [StyledText.toPlain_accent]
    · rwa [StyledText.toPlain_plain]
  · exact trivial
  · refine harmless_metadataGrid (Document.inertRow_metadataRows (inert_terminal _ _)
      h.version.lines ?_ _)
    exact ((Metadata.harmless_iff doc.metadata).1 h).2

/-! ## Reports -/

namespace Report

/-- The lines that a report is drawn with. -/
def lines (policy : Policy) (sanitizer : Sanitizer) (doc : Document) : List String :=
  (blocks policy sanitizer doc).value.flatMap (canvas policy).blockLines

theorem value_draw (policy : Policy) (sanitizer : Sanitizer) (doc : Document) :
    (draw policy sanitizer doc).value =
      String.join ((lines policy sanitizer doc).map fun line => line.push '\n') := rfl

theorem mem_blocks {policy : Policy} {sanitizer : Sanitizer} {doc : Document} {block : Block}
    (h : block ∈ (blocks policy sanitizer doc).value) :
    block = .blank ∨ ∃ part ∈ sections policy doc,
      block ∈ (sectionBlocks policy sanitizer doc part).value := by
  rw [blocks_eq_intercalate, Traced.value_map, Traced.value_each] at h
  rcases mem_intercalate h with h | ⟨blocks, hblocks, h⟩
  · exact Or.inl (List.mem_singleton.1 h)
  · obtain ⟨part, hpart, rfl⟩ := List.mem_map.1 hblocks
    exact Or.inr ⟨part, hpart, h⟩

theorem mem_blocks_of_section {policy : Policy} {sanitizer : Sanitizer} {doc : Document}
    {part : Section} (hpart : part ∈ sections policy doc) {block : Block}
    (h : block ∈ (sectionBlocks policy sanitizer doc part).value) :
    block ∈ (blocks policy sanitizer doc).value := by
  rw [blocks_eq_intercalate, Traced.value_map, Traced.value_each]
  exact (infix_intercalate (List.mem_map_of_mem hpart) _).subset h

/-- Without a title, or with a harmless one, every line is tame. -/
theorem tame_lines {policy : Policy} {doc : Document}
    (h : policy.headers = true → doc.metadata.Harmless) :
    ∀ line ∈ lines policy .terminal doc, (canvas policy).Tame line.toList := by
  intro line hline
  obtain ⟨block, hblock, hline⟩ := List.mem_flatMap.1 hline
  refine Canvas.tame_blockLines ?_ line hline
  rcases mem_blocks hblock with rfl | ⟨part, hpart, hblock⟩
  · exact trivial
  · by_cases htitle : part = .title
    · subst htitle
      exact harmless_title policy (h (headers_of_title_mem hpart)) block hblock
    · exact (SectionBlock.of_mem_sectionBlocks htitle hblock).harmless

theorem title_mem_sections {policy : Policy} (hheaders : policy.headers = true)
    (doc : Document) : Section.title ∈ sections policy doc := by
  simp [sections, hheaders]

theorem mem_lines_of_title {policy : Policy} (hheaders : policy.headers = true)
    {sanitizer : Sanitizer} {doc : Document} {block : Block}
    (h : block ∈ (sectionBlocks policy sanitizer doc .title).value) {line : String}
    (hline : line ∈ (canvas policy).blockLines block) : line ∈ lines policy sanitizer doc :=
  List.mem_flatMap.2 ⟨block, mem_blocks_of_section (title_mem_sections hheaders doc) h, hline⟩

/-- The version is shown as it is. -/
theorem infix_lines_version {policy : Policy} (hheaders : policy.headers = true)
    (doc : Document) :
    ∃ line ∈ lines policy .terminal doc, doc.metadata.version.toList <:+: line.toList := by
  let text := headingTitle ("RESULTS (version " ++ doc.metadata.version ++ ")")
  have htone : ∃ tone, titleLine policy doc = .single tone text := by
    unfold titleLine
    split
    · exact ⟨.accent, rfl⟩
    · exact ⟨.plain, rfl⟩
  obtain ⟨tone, htitle⟩ := htone
  have hversion : doc.metadata.version.toList <:+: text.toList := by
    simp only [text, headingTitle, String.toList_append]
    exact ⟨"STREX ".toList ++ "RESULTS (version ".toList, ")".toList, by simp⟩
  have hblock : Block.line (titleLine policy doc) ∈
      (sectionBlocks policy .terminal doc .title).value := List.mem_cons_self
  refine ⟨_, mem_lines_of_title hheaders hblock List.mem_cons_self, ?_⟩
  rw [htitle]
  exact hversion.trans ((canvas policy).infix_paint_single tone text)

theorem language_mem_metadataRows (doc : Document) (verbose : Bool) (path : String) :
    ("identified language", doc.metadata.languageSummary) ∈ doc.metadataRows verbose path := by
  cases verbose <;> simp [Document.metadataRows, Document.runRows]

/-- Each line of the language is shown as it is. -/
theorem infix_lines_language {policy : Policy} (hheaders : policy.headers = true)
    (doc : Document) {part : String} (hpart : part ∈ linesOf doc.metadata.languageSummary) :
    ∃ line ∈ lines policy .terminal doc, part.toList <:+: line.toList := by
  let path := Sanitizer.terminal doc.metadata.filePath false
  let grid := Document.metadataGrid (doc.metadataRows policy.isVerbose path)
  have hblock : Block.grid grid ∈ (sectionBlocks policy .terminal doc .title).value :=
    List.mem_cons_of_mem _ (List.mem_cons_of_mem _ List.mem_cons_self)
  have hrow : #v[.plain "identified language", .plain doc.metadata.languageSummary] ∈ grid.rows :=
    List.mem_map.2 ⟨_, language_mem_metadataRows doc policy.isVerbose path, rfl⟩
  have hcell : StyledText.plain doc.metadata.languageSummary ∈
      (#v[.plain "identified language", .plain doc.metadata.languageSummary] :
        Vector StyledText 2).toList := by simp
  obtain ⟨carried, hcarried, hpart⟩ := Cell.exists_infix_ofLines hpart
  rw [← Cell.ofText, ← (canvas policy).paintCell_plain] at hcarried
  obtain ⟨drawn, hdrawn, hstands⟩ :=
    (canvas policy).infix_gridLines (by decide) rfl hrow hcell hcarried
  exact ⟨drawn, mem_lines_of_title hheaders hblock hdrawn, hpart.trans hstands⟩

/-- A report that a terminal obeys nothing in but its layout: each line is tame and ended by a
line feed, and without colors there is no escape character. -/
structure Escaped (policy : Policy) (doc : Document) (text : String) : Prop where
  drawn : text = String.join ((lines policy .terminal doc).map fun line => line.push '\n')
  tame : ∀ line ∈ lines policy .terminal doc, (canvas policy).Tame line.toList
  plain : policy.colorsEnabled = false → Character.escape ∉ text.toList

theorem escape_notMem_drawn {texts : List String} (h : ∀ line ∈ texts, Inert line.toList) :
    Character.escape ∉ (String.join (texts.map fun line => line.push '\n')).toList := by
  intro hmem
  rw [String.toList_join] at hmem
  obtain ⟨pushed, hpushed, hmem⟩ := List.mem_flatMap.1 hmem
  obtain ⟨line, hline, rfl⟩ := List.mem_map.1 hpushed
  rw [String.toList_push] at hmem
  rcases List.mem_append.1 hmem with hmem | hmem
  · exact (h line hline).escape_notMem hmem
  · exact absurd hmem (by decide)

theorem escaped_draw {policy : Policy} {doc : Document}
    (h : policy.headers = true → doc.metadata.Harmless) :
    Escaped policy doc (draw policy .terminal doc).value where
  drawn := value_draw policy .terminal doc
  tame := tame_lines h
  plain hcolors := by
    rw [value_draw]
    exact escape_notMem_drawn fun line hline => (tame_lines h line hline).inert hcolors

/-- Without colors, tame lines leave no room for anything else in the title. -/
theorem harmless_of_tame_lines {policy : Policy} {doc : Document}
    (hheaders : policy.headers = true) (hcolors : policy.colorsEnabled = false)
    (h : ∀ line ∈ lines policy .terminal doc, (canvas policy).Tame line.toList) :
    doc.metadata.Harmless := by
  have hinert : ∀ line ∈ lines policy .terminal doc, Inert line.toList := fun line hline =>
    (h line hline).inert hcolors
  rw [Metadata.harmless_iff]
  constructor
  · obtain ⟨line, hline, hstands⟩ := infix_lines_version hheaders doc
    exact fun c hc => hinert line hline c (hstands.subset hc)
  · intro c hc hn
    obtain ⟨part, hpart, hc⟩ := exists_mem_linesOf hc hn
    obtain ⟨line, hline, hstands⟩ := infix_lines_language hheaders doc hpart
    exact hinert line hline c (hstands.subset hc)

/-- Every report on a document is escaped, in whatever color preference and on a terminal or
not, exactly if headers are left out or the version and the language have nothing in them that
a terminal obeys: those are shown without being sanitized. -/
theorem render_escaped_iff (doc : Document) (verbosity : Verbosity) (disableHeaders : Bool) :
    (∀ (color : String) (mode : ColorMode) (terminal : Bool),
      ColorMode.ofPreference? color = some mode →
      ∃ text, (render ⟨verbosity, disableHeaders, color⟩ terminal .terminal doc).map
          Traced.value = .ok text ∧
        Escaped (.make verbosity (!disableHeaders) mode terminal) doc text) ↔
    (disableHeaders = false → doc.metadata.Harmless) := by
  constructor
  · intro h hheaders
    have hnever : ColorMode.ofPreference? "never" = some .never := by decide
    obtain ⟨text, -, hescaped⟩ := h "never" .never false hnever
    exact harmless_of_tame_lines (by simp [Policy.make, hheaders]) rfl hescaped.tame
  · intro h color mode terminal hcolor
    refine ⟨_, by rw [render_of_color hcolor]; rfl, escaped_draw fun hheaders => h ?_⟩
    simpa [Policy.make] using hheaders

/-- A sequence that clears the screen reaches the output with the version, although no color
is ever to be written. -/
theorem escape_mem_render_version :
    (Policy.make .brief true .never false).colorsEnabled = false ∧
    ∃ text, (render ⟨.brief, false, "never"⟩ false .terminal
        { metadata := { version := "\x1b[2J" } }).map Traced.value = .ok text ∧
      Character.escape ∈ text.toList ∧
      ¬ Escaped (.make .brief true .never false) { metadata := { version := "\x1b[2J" } } text := by
  have hcolor : ColorMode.ofPreference? "never" = some .never := by decide
  have hheaders : (Policy.make .brief true .never false).headers = true := rfl
  obtain ⟨line, hline, hstands⟩ :=
    infix_lines_version hheaders { metadata := { version := "\x1b[2J" } }
  have hescape : Character.escape ∈ (draw (.make .brief true .never false) .terminal
      { metadata := { version := "\x1b[2J" } }).value.toList := by
    rw [value_draw, String.toList_join]
    refine List.mem_flatMap.2 ⟨line.push '\n', List.mem_map_of_mem hline, ?_⟩
    rw [String.toList_push]
    exact List.mem_append_left _ (hstands.subset (by decide))
  refine ⟨rfl, _, by rw [render_of_color hcolor]; rfl, hescape, fun hescaped => ?_⟩
  exact hescaped.plain rfl hescape

end Report
end StringReport
