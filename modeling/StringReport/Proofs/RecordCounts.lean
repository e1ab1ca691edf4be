import StringReport.Proofs.CountedSections

/-!
# Counts and records

A report tells the number of strings of a technique in its metadata, in the heading of the
section and in the labels below it. These numbers are reached on different ways; they agree with
each other and with the records that are shown.
-/
namespace StringReport

/-! ## The lines of a report by sections -/

/-- The lines of a report: those of the title, and for each section there is, the number in its
heading and its lines. -/
structure ReportParts where
  title : List String
  static : Option (Nat × List String)
  language : Option (Nat × List String)
  stack : Option (Nat × List String)
  tight : Option (Nat × List String)
  decoded : Option (Nat × List String)

/-- The sections one after the other, with an empty line between them. -/
def ReportParts.lines (parts : ReportParts) : List String :=
  [""].intercalate (parts.title ::
    (parts.static.toList ++ parts.language.toList ++ parts.stack.toList ++ parts.tight.toList ++
      parts.decoded.toList).map (·.2))

/-! ## The rows of the techniques -/

/-- The texts in the rows of the metadata that count strings. -/
structure TechniqueTexts where
  static : String
  language : String
  stack : String
  tight : String
  decoded : String

/-- A line of the metadata. -/
def metadataLine (left right : Nat) (label text : String) : String :=
  "| " ++ fillTo left label ++ " | " ++ fillTo right text ++ " |"

/-- The rows that count strings, one technique after the other. -/
def TechniqueTexts.rows (texts : TechniqueTexts) : List Metadata.Row :=
  [(" static strings", texts.static), ("  language strings", texts.language),
    (" stack strings", texts.stack), (" tight strings", texts.tight),
    (" decoded strings", texts.decoded)]

/-- The lines of these rows. -/
def TechniqueTexts.lines (texts : TechniqueTexts) (left right : Nat) : List String :=
  texts.rows.map fun row => metadataLine left right row.1 row.2

/-- The lines of a row of the metadata, in columns of the given widths. -/
def metadataLines (left right : Nat) (row : Metadata.Row) : List String :=
  (recordLines [left, right] [Cell.ofText row.1, Cell.ofText row.2]).map (joinLine .framed "|")

/-- The rule above and below the metadata. -/
def metadataRule (left right : Nat) : String := joinLine .framed "+" (ruleParts [left, right])

/-- A row of texts that take one line each is drawn with one line. -/
theorem metadataLines_of_inertLine {row : Metadata.Row} (h : Document.InertLine row)
    (left right : Nat) : metadataLines left right row = [metadataLine left right row.1 row.2] := by
  have hheight : recordHeight [[row.1], [row.2]] = 1 := rfl
  have hline : joinLine .framed "|" (recordLine [left, right] [[row.1], [row.2]] 0) =
      metadataLine left right row.1 row.2 := by
    apply String.toList_inj.1
    simp [joinLine, recordLine, metadataLine]
  rw [metadataLines, Cell.ofText_of_notMem h.1.newline_notMem,
    Cell.ofText_of_notMem h.2.newline_notMem, recordLines, hheight]
  simp [hline]

namespace Canvas

variable (canvas : Canvas)

/-- The metadata are drawn row by row between two rules. -/
theorem exists_gridLines_rows {rows : List Metadata.Row} (hrows : rows ≠ []) :
    ∃ left right, canvas.gridLines (Document.metadataGrid rows) =
      metadataRule left right :: rows.flatMap (metadataLines left right) ++
        [metadataRule left right] := by
  let record (row : Metadata.Row) : List Cell := [Cell.ofText row.1, Cell.ofText row.2]
  have hrecords : ((Document.metadataGrid rows).rows.map fun row =>
      row.toList.map canvas.paintCell) = rows.map record := by
    rw [Document.metadataGrid, List.map_map]
    refine List.map_congr_left fun row _ => ?_
    simp [Document.metadataRow, Document.metadataCells, paintCell_plain, record]
  obtain ⟨left, right, hwidths⟩ :
      ∃ left right, columnWidths 2 (rows.map record) = [left, right] := by
    refine List.length_eq_two.1 (length_columnWidths fun other hother => ?_)
    obtain ⟨row, -, rfl⟩ := List.mem_map.1 hother
    rfl
  have hempty : (Document.metadataGrid rows).isEmpty = false := by
    simp [Grid.isEmpty, Document.metadataGrid, hrows]
  have hdrawn : canvas.gridLines (Document.metadataGrid rows) =
      tableLines .framed 2 none (rows.map record) := by
    rw [gridLines, hempty, hrecords]
    rfl
  refine ⟨left, right, ?_⟩
  rw [hdrawn, tableLines, if_neg (by decide)]
  simp only [Option.toList_none, List.nil_append, hwidths, List.flatMap_map]
  rfl

/-- Rows of the metadata that take one line stand next to each other as they are listed. -/
theorem exists_gridLines_metadataGrid (before after : List Metadata.Row)
    {rows : List Metadata.Row} (h : ∀ row ∈ rows, Document.InertLine row) (hrows : rows ≠ []) :
    ∃ above below left right,
      canvas.gridLines (Document.metadataGrid (before ++ rows ++ after)) =
        above ++ (rows.map fun row => metadataLine left right row.1 row.2) ++ below := by
  obtain ⟨left, right, hdrawn⟩ :=
    canvas.exists_gridLines_rows (show before ++ rows ++ after ≠ [] by simp [hrows])
  have hlines : rows.flatMap (metadataLines left right) =
      rows.map fun row => metadataLine left right row.1 row.2 := by
    rw [List.map_eq_flatMap, List.flatMap_def, List.flatMap_def]
    exact congrArg List.flatten (List.map_congr_left fun row hrow =>
      metadataLines_of_inertLine (h row hrow) left right)
  refine ⟨metadataRule left right :: before.flatMap (metadataLines left right),
    after.flatMap (metadataLines left right) ++ [metadataRule left right], left, right, ?_⟩
  rw [hdrawn, ← hlines]
  simp only [List.flatMap_append, List.cons_append, List.append_assoc]

end Canvas

/-- A line of the metadata that has a label and a text, and spaces up to the bars. -/
def IsRowLine (row : Metadata.Row) (line : String) : Prop :=
  ∃ left right, line = "| " ++ row.1 ++ spaces left ++ " | " ++ row.2 ++ spaces right ++ " |"

theorem isRowLine_metadataLine (row : Metadata.Row) (left right : Nat) :
    IsRowLine row (metadataLine left right row.1 row.2) := by
  refine ⟨left - tableWidth row.1, right - tableWidth row.2, ?_⟩
  simp only [metadataLine, fillTo, String.append_assoc]

/-! ## Agreement -/

/-- The text of a row and a section agree: the row has the word for techniques that were not
used exactly if there is no section, and else it tells the number of the section's heading. -/
structure RowAgrees (text : String) (part : Option (Nat × List String)) (tell : Nat → String) :
    Prop where
  disabled : text = "Disabled" ↔ part = none
  number : ∀ n lines, part = some (n, lines) → text = tell n

/-- A number that may have spaces before it, as the language row has its numbers. -/
def Padded (n : Nat) (text : String) : Prop := ∃ width, text = spaces width ++ toString n

/-- The section of frame strings of one technique: a list in a brief report and a table in a
verbose one. -/
def Report.Framed (policy : Policy) (label : String) (n : Nat) (strings : List FrameString)
    (lines : List String) : Prop :=
  match policy.verbosity with
  | .brief => Report.Listed policy label n (strings.map FrameString.shown) lines
  | .verbose => Report.Tabled policy label n (strings.map FrameString.shown) lines

/-- The section of decoded strings: a list in a brief report, and in a verbose one a table for
each routine. -/
def Report.Decoded (policy : Policy) (n : Nat) (strings : List DecodedString)
    (lines : List String) : Prop :=
  match policy.verbosity with
  | .brief => Report.Listed policy "DECODED" n (strings.map DecodedString.shown) lines
  | .verbose => Report.TabledInGroups policy "DECODED" " FUNCTION at " n
      ((DecodedString.routines strings).map fun routine =>
        (Hex.address routine,
          (DecodedString.ofRoutine routine strings).map DecodedString.shown)) lines

/-- All numbers of a report agree with each other and with the records shown. -/
structure ReportParts.Agree (parts : ReportParts) (texts : TechniqueTexts) (policy : Policy)
    (doc : Document) : Prop where
  included : parts.static.isSome = doc.analysis.staticEnabled ∧
    parts.language.isSome = doc.languageShown ∧ parts.stack.isSome = doc.analysis.stackEnabled ∧
    parts.tight.isSome = doc.analysis.tightEnabled ∧
    parts.decoded.isSome = doc.analysis.decodedEnabled
  rows : ∃ above drawn below, parts.title = above ++ drawn ++ below ∧
    List.Forall₂ IsRowLine texts.rows drawn
  static : ∀ n lines, parts.static = some (n, lines) →
    Report.ListedInTwo policy "STATIC" "STREX STATIC STRINGS: " "ASCII" "UTF-16LE" n
      ((doc.findings.static.filter (·.encoding = .ascii)).map (StaticString.shown .ascii))
      ((doc.findings.static.filter (·.encoding = .utf16)).map (StaticString.shown .utf16)) lines
  language : ∀ n lines, parts.language = some (n, lines) → ∃ language ordered,
    InOrder LanguageString.offset (doc.findings.language ++ doc.findings.languageMissed) ordered ∧
    Report.Listed policy (Language.label language) n (ordered.map LanguageString.shown) lines
  stack : ∀ n lines, parts.stack = some (n, lines) →
    Report.Framed policy "STACK" n doc.findings.stack lines
  tight : ∀ n lines, parts.tight = some (n, lines) →
    Report.Framed policy "TIGHT" n doc.findings.tight lines
  decoded : ∀ n lines, parts.decoded = some (n, lines) →
    Report.Decoded policy n doc.findings.decoded lines
  staticRow : RowAgrees texts.static parts.static fun n =>
    toString n ++ " (" ++ toString (doc.findings.static.map fun s => s.string.length).sum ++
      " characters)"
  languageRow : ∀ n lines, parts.language = some (n, lines) →
    texts.language ≠ "Disabled" ∧ ∃ found strings characters,
      Padded found strings ∧ texts.language = strings ++ " (" ++ characters ++ " characters)" ∧
      n = found + doc.findings.languageMissed.length
  stackRow : RowAgrees texts.stack parts.stack fun n => toString n
  tightRow : RowAgrees texts.tight parts.tight fun n => toString n
  decodedRow : RowAgrees texts.decoded parts.decoded fun n => toString n

/-! ## Reports -/

theorem notMem_toString {c : Char} (hdigit : c.isDigit = false) (n : Nat) :
    c ∉ (toString n).toList := by
  intro h
  rw [Nat.toString_eq_ofList_toDigits, String.toList_ofList] at h
  rw [Nat.isDigit_of_mem_toDigits (by decide) (by decide) h] at hdigit
  exact absurd hdigit (by decide)

theorem ne_disabled {text : String} (h : 'D' ∉ text.toList) : text ≠ Metadata.disabled := by
  rintro rfl
  exact h (by decide)

theorem notMem_countText {strings characters : String} (hs : 'D' ∉ strings.toList)
    (hc : 'D' ∉ characters.toList) : 'D' ∉ (Document.countText strings characters).toList := by
  simp [Document.countText, hs, hc]

theorem padded_aligned (width n : Nat) : Padded n (Document.aligned width n) := by
  refine ⟨width - (toString n).toList.length, String.toList_inj.1 ?_⟩
  rw [Document.aligned, String.toList_ofList, List.leftpad, String.toList_append, toList_spaces]

theorem notMem_aligned {c : Char} (hdigit : c.isDigit = false) (hspace : c ≠ ' ')
    (width n : Nat) : c ∉ (Document.aligned width n).toList := by
  obtain ⟨pad, hpad⟩ := padded_aligned width n
  rw [hpad, String.toList_append, toList_spaces]
  intro h
  rcases List.mem_append.1 h with h | h
  · exact hspace (List.eq_of_mem_replicate h)
  · exact notMem_toString hdigit n h

/-- A row for a technique that was used, or was not, agrees with its section. -/
theorem rowAgrees_ite (enabled : Bool) (tell : Nat → String) (n : Nat) (lines : List String)
    (h : 'D' ∉ (tell n).toList) :
    RowAgrees (if enabled then tell n else Metadata.disabled)
      (if enabled then some (n, lines) else none) tell := by
  cases enabled with
  | true =>
    exact ⟨iff_of_false (ne_disabled h) nofun, fun m other hpart => by cases hpart; rfl⟩
  | false => exact ⟨iff_of_true rfl rfl, nofun⟩

namespace Report

/-- The lines of one section. -/
def sectionLines (policy : Policy) (doc : Document) (part : Section) : List String :=
  (sectionBlocks policy .terminal doc part).value.flatMap (canvas policy).blockLines

/-- A report by its sections. -/
def parts (policy : Policy) (doc : Document) : ReportParts where
  title := sectionLines policy doc .title
  static := if doc.analysis.staticEnabled then
    some (doc.findings.static.length, sectionLines policy doc .static) else none
  language := doc.language?.map fun language =>
    ((doc.findings.language ++ doc.findings.languageMissed).length,
      sectionLines policy doc (.language language))
  stack := if doc.analysis.stackEnabled then
    some (doc.findings.stack.length, sectionLines policy doc .stack) else none
  tight := if doc.analysis.tightEnabled then
    some (doc.findings.tight.length, sectionLines policy doc .tight) else none
  decoded := if doc.analysis.decodedEnabled then
    some (doc.findings.decoded.length, sectionLines policy doc .decoded) else none

theorem framed_frameBlocks {policy : Policy} (hheaders : policy.headers = true) {label : String}
    (hlabel : Printable label.toList) (strings : List FrameString) :
    Framed policy label strings.length strings
      ((frameBlocks policy .terminal label strings).value.flatMap (canvas policy).blockLines) := by
  unfold Framed
  cases hverbosity : policy.verbosity with
  | brief => exact listed_frameBlocks hheaders (by rw [Policy.isVerbose, hverbosity]; rfl) hlabel _
  | verbose =>
    exact tabled_frameBlocks hheaders (by rw [Policy.isVerbose, hverbosity]; rfl) hlabel _

theorem decoded_decodedBlocks {policy : Policy} (hheaders : policy.headers = true)
    (strings : List DecodedString) :
    Decoded policy strings.length strings
      ((decodedBlocks policy .terminal strings).value.flatMap (canvas policy).blockLines) := by
  unfold Decoded
  cases hverbosity : policy.verbosity with
  | brief => exact listed_decodedBlocks hheaders (by rw [Policy.isVerbose, hverbosity]; rfl) _
  | verbose =>
    exact tabledInGroups_decodedBlocks hheaders (by rw [Policy.isVerbose, hverbosity]; rfl) _

theorem lines_parts {policy : Policy} (hheaders : policy.headers = true) (doc : Document) :
    lines policy .terminal doc = (parts policy doc).lines := by
  have hsection {p : Bool} (n : Nat) (part : Section) :
      (if p then [part] else []).map (sectionLines policy doc) =
        (if p then some (n, sectionLines policy doc part) else none).toList.map (·.2) := by
    cases p <;> rfl
  have hlanguage : (doc.language?.map Section.language).toList.map (sectionLines policy doc) =
      (parts policy doc).language.toList.map (·.2) := by
    cases hl : doc.language? <;> simp [parts, hl]
  have hblocks : lines policy .terminal doc =
      [""].intercalate ((sections policy doc).map (sectionLines policy doc)) := by
    simp only [lines, blocks_eq_intercalate, Traced.value_map, Traced.value_each,
      flatMap_intercalate, List.map_map]
    rfl
  rw [hblocks, ReportParts.lines]
  simp only [sections, hheaders, if_true, List.map_append, hlanguage, List.map_cons, List.map_nil]
  rw [hsection doc.findings.static.length, hsection doc.findings.stack.length,
    hsection doc.findings.tight.length, hsection doc.findings.decoded.length]
  simp only [List.cons_append, List.nil_append, List.append_assoc]
  rfl

/-- The texts that the metadata have for the techniques. -/
def techniqueTexts (doc : Document) : TechniqueTexts where
  static := if doc.analysis.staticEnabled then
    Document.countText (toString doc.findings.static.length)
      (toString (doc.findings.static.map fun s => s.string.length).sum) else Metadata.disabled
  language := if doc.analysis.languageEnabled ∧ doc.metadata.language ≠ "" then
    Document.countText
      (Document.aligned (toString doc.findings.static.length).length
        doc.findings.language.length)
      (Document.aligned
        (toString (Document.characterCount (doc.findings.static.map (·.string)))).length
        (Document.characterCount (doc.findings.language.map (·.string))))
    else Metadata.disabled
  stack := if doc.analysis.stackEnabled then toString doc.findings.stack.length
    else Metadata.disabled
  tight := if doc.analysis.tightEnabled then toString doc.findings.tight.length
    else Metadata.disabled
  decoded := if doc.analysis.decodedEnabled then toString doc.findings.decoded.length
    else Metadata.disabled

theorem techniqueRows_eq (doc : Document) : doc.techniqueRows = (techniqueTexts doc).rows := by
  simp only [Document.techniqueRows, Document.characterCount, techniqueTexts,
    TechniqueTexts.rows, List.map_map]
  rfl

theorem exists_title (policy : Policy) (doc : Document) :
    ∃ above below left right, sectionLines policy doc .title =
      above ++ (techniqueTexts doc).lines left right ++ below := by
  let path := Sanitizer.terminal doc.metadata.filePath false
  let before : List Metadata.Row :=
    (padRight "file path" Metadata.leftWidth, padRight path Metadata.rightWidth) ::
      (if policy.isVerbose then doc.runRows
        else [("identified language", doc.metadata.languageSummary)]) ++ [("extracted strings", "")]
  let after : List Metadata.Row :=
    if policy.isVerbose then doc.functionRows (displayWidth path) else []
  have hrows : doc.metadataRows policy.isVerbose path = before ++ doc.techniqueRows ++ after := by
    simp only [Document.metadataRows, before, after, List.cons_append, List.append_assoc,
      List.nil_append]
  obtain ⟨above, below, left, right, hlines⟩ :=
    (canvas policy).exists_gridLines_metadataGrid before after doc.inertLine_techniqueRows
      (by simp [Document.techniqueRows])
  refine ⟨(canvas policy).paint (titleLine policy doc) :: "" :: above, below, left, right, ?_⟩
  rw [TechniqueTexts.lines, ← techniqueRows_eq, List.cons_append, List.cons_append,
    List.cons_append, List.cons_append, ← hlines, ← hrows]
  simp only [sectionLines, sectionBlocks, Document.metadataBlocks, Sanitizer.display,
    Traced.value_bind, Traced.value_pure, List.flatMap_cons, List.flatMap_nil, List.append_nil]
  rfl

theorem eq_of_ite_eq_some {enabled : Bool} {α : Type} {a b : α}
    (h : (if enabled then some a else none) = some b) : a = b := by
  cases enabled with
  | true => exact Option.some.inj h
  | false => cases h

/-- Only a language with a name has a section. -/
theorem languageNamed_of_language? {doc : Document} {language : Language}
    (h : doc.language? = some language) :
    doc.analysis.languageEnabled ∧ doc.metadata.language ≠ "" := by
  unfold Document.language? at h
  split at h
  · next henabled =>
    refine ⟨henabled, ?_⟩
    intro hempty
    have hnone : Language.ofTag? "" = none := by decide
    rw [hempty, hnone] at h
    cases h
  · cases h

theorem agree_parts {policy : Policy} (hheaders : policy.headers = true) (doc : Document) :
    (parts policy doc).Agree (techniqueTexts doc) policy doc where
  included := by
    have hsome {enabled : Bool} {part : Nat × List String} :
        (if enabled then some part else none).isSome = enabled := by
      cases enabled <;> rfl
    exact ⟨hsome, Option.isSome_map, hsome, hsome, hsome⟩
  rows := by
    obtain ⟨above, below, left, right, htitle⟩ := exists_title policy doc
    refine ⟨above, _, below, htitle, ?_⟩
    rw [TechniqueTexts.lines, List.forall₂_map_right_iff, List.forall₂_same]
    exact fun row _ => isRowLine_metadataLine row left right
  static n lines hpart := by
    cases eq_of_ite_eq_some hpart
    exact listedInTwo_staticBlocks hheaders doc.findings.static
  language n lines hpart := by
    obtain ⟨language, hlanguage, hpart⟩ := Option.map_eq_some_iff.1 hpart
    cases hpart
    exact ⟨language, _, LanguageString.inOrder_sortByOffset _,
      listed_languageBlocks hheaders language _ _⟩
  stack n lines hpart := by
    cases eq_of_ite_eq_some hpart
    exact framed_frameBlocks hheaders (by decide : Printable "STACK".toList) doc.findings.stack
  tight n lines hpart := by
    cases eq_of_ite_eq_some hpart
    exact framed_frameBlocks hheaders (by decide : Printable "TIGHT".toList) doc.findings.tight
  decoded n lines hpart := by
    cases eq_of_ite_eq_some hpart
    exact decoded_decodedBlocks hheaders doc.findings.decoded
  staticRow := by
    have hrow := rowAgrees_ite doc.analysis.staticEnabled
      (fun n => Document.countText (toString n)
        (toString (doc.findings.static.map fun s => s.string.length).sum))
      doc.findings.static.length (sectionLines policy doc .static)
      (notMem_countText (notMem_toString rfl _) (notMem_toString rfl _))
    exact hrow
  languageRow n lines hpart := by
    obtain ⟨language, hlanguage, hpart⟩ := Option.map_eq_some_iff.1 hpart
    cases hpart
    simp only [techniqueTexts, if_pos (languageNamed_of_language? hlanguage)]
    exact ⟨ne_disabled (notMem_countText (notMem_aligned rfl (by decide) _ _)
      (notMem_aligned rfl (by decide) _ _)), _, _, _,
      padded_aligned _ _, rfl, List.length_append⟩
  stackRow := rowAgrees_ite doc.analysis.stackEnabled toString _ _ (notMem_toString rfl _)
  tightRow := rowAgrees_ite doc.analysis.tightEnabled toString _ _ (notMem_toString rfl _)
  decodedRow := rowAgrees_ite doc.analysis.decodedEnabled toString _ _ (notMem_toString rfl _)

/-- In a report with headers every number that tells how many strings there are agrees with the
other ones and with the lines that show the strings. -/
theorem exists_parts_render {color : String} {mode : ColorMode}
    (hcolor : ColorMode.ofPreference? color = some mode) (doc : Document) (verbosity : Verbosity)
    (terminal : Bool) :
    ∃ (parts : ReportParts) (texts : TechniqueTexts),
      (render ⟨verbosity, false, color⟩ terminal .terminal doc).map Traced.value =
        .ok (String.join (parts.lines.map fun line => line.push '\n')) ∧
      parts.Agree texts (.make verbosity true mode terminal) doc := by
  refine ⟨_, _, ?_, agree_parts rfl doc⟩
  rw [render_of_color hcolor, Except.map, value_draw, ← lines_parts rfl]
  rfl

/-- A document with strings in both encodings, language strings found and missed, no stack
strings, and decoded strings of two routines; tight strings were not looked for. -/
def countedSample : Document where
  metadata := { language := "rust" }
  analysis := { tightEnabled := false }
  findings := {
    static := [⟨"wide", 1, .utf16⟩, ⟨"thin\n", 2, .ascii⟩, ⟨"é", 3, .ascii⟩]
    language := [⟨"found", 9⟩]
    languageMissed := [⟨"missed", 4⟩]
    decoded := [{ region := .heap, string := "a", decodedAt := 1, routine := 7 },
      { region := .heap, string := "b\r\n", decodedAt := 2, routine := 5 }] }

theorem exists_parts_render_countedSample :
    ColorMode.ofPreference? "auto" = some .auto ∧
    ∃ (parts : ReportParts) (texts : TechniqueTexts),
      (render ⟨.verbose, false, "auto"⟩ true .terminal countedSample).map Traced.value =
        .ok (String.join (parts.lines.map fun line => line.push '\n')) ∧
      parts.Agree texts (.make .verbose true .auto true) countedSample := by
  have hcolor : ColorMode.ofPreference? "auto" = some .auto := by decide
  exact ⟨hcolor, exists_parts_render hcolor countedSample .verbose true⟩

end Report
end StringReport
