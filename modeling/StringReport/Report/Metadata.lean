import StringReport.Layout.Drawing
import StringReport.Number.Decimal
import StringReport.Report.Traced
import StringReport.Text.Wrap

/-!
# The metadata of a report

A framed grid without header tells about the file and counts the strings of each technique,
with a word in place of the count where the technique was not used. Verbose reports add the
run and the functions met.
-/
namespace StringReport

/-- The tool's name as headings show it, followed by a text. -/
def headingTitle (text : String) : String := "STREX " ++ text

namespace Metadata

/-- The columns of the left side at least. -/
def leftWidth : Nat := 22

/-- The columns of the right side at least. -/
def rightWidth : Nat := 82

/-- What stands for the count of a technique that was not used. -/
def disabled : String := "Disabled"

/-- A label and what it labels. -/
abbrev Row := String × String

/-- The language, with its version and the language selected instead where there is one. -/
def languageSummary (m : Metadata) : String :=
  m.language ++
    (if m.language ≠ "unknown" ∧ m.languageVersion ≠ "" then " (" ++ m.languageVersion ++ ")"
      else "") ++
    (if m.languageSelected ≠ "" then " - selected: " ++ m.languageSelected else "")

/-- A duration in whole seconds, as minutes and seconds of two digits at least. -/
def clock (seconds : Nat) : String :=
  String.ofList (Timestamp.padded 2 (seconds / 60) ++ ':' :: Timestamp.padded 2 (seconds % 60))

/-- A duration as minutes and seconds, rounded to seconds. -/
def duration (seconds : Binary64) : String := clock seconds.wholeUnits

end Metadata

namespace Document

open Metadata (Row disabled)

/-- The language whose section the report has, if it has one. -/
def language? (doc : Document) : Option Language :=
  if doc.analysis.languageEnabled then Language.ofTag? doc.metadata.language else none

/-- Whether the report has a section for a language. -/
def languageShown (doc : Document) : Bool := doc.language?.isSome

/-- A number, aligned to the right of a width. -/
def aligned (width n : Nat) : String :=
  String.ofList ((toString n).toList.leftpad width ' ')

/-- The characters of all strings. -/
def characterCount (strings : List String) : Nat := (strings.map String.length).sum

/-- A count of strings and characters. -/
def countText (strings characters : String) : String :=
  strings ++ " (" ++ characters ++ " characters)"

/-- A row for each technique. Both numbers of the language strings stand below those of the
static strings. -/
def techniqueRows (doc : Document) : List Row :=
  let analysis := doc.analysis
  let findings := doc.findings
  let statics := toString findings.static.length
  let staticCharacters := toString (characterCount (findings.static.map (·.string)))
  let count (enabled : Bool) (n : Nat) := if enabled then toString n else disabled
  [(" static strings",
      if analysis.staticEnabled then countText statics staticCharacters else disabled),
    ("  language strings",
      if analysis.languageEnabled ∧ doc.metadata.language ≠ "" then
        countText (aligned statics.length findings.language.length)
          (aligned staticCharacters.length (characterCount (findings.language.map (·.string))))
      else disabled),
    (" stack strings", count analysis.stackEnabled findings.stack.length),
    (" tight strings", count analysis.tightEnabled findings.tight.length),
    (" decoded strings", count analysis.decodedEnabled findings.decoded.length)]

/-- A candidate with its address, score and references. -/
def candidateText (candidate : UInt64 × Score) : String :=
  Hex.address candidate.1 ++ " (" ++ candidate.2.score.fixed 3 ++ ", xrefs_to: " ++
    toString candidate.2.references.toNat ++ ")"

/-- The rows about functions. Candidates are wrapped to the width of the file path, or to
that of the column if the path is narrower. -/
def functionRows (doc : Document) (pathWidth : Nat) : List Row :=
  if doc.metadata.timings.emulation.isZero then [("analyzed functions", disabled)]
  else
    let analysis := doc.analysis
    let functions := analysis.functions
    let row (enabled : Bool) (label : String) (n : UInt64) : List Row :=
      if enabled then [(label, toString n.toNat)] else []
    [("analyzed functions", ""), (" discovered", toString functions.discovered.toNat),
      (" library", toString functions.library.toNat)] ++
    row analysis.stackEnabled " stack strings" functions.analyzedForStack ++
    row analysis.tightEnabled " tight strings" functions.analyzedForTight ++
    row analysis.decodedEnabled " decoded strings" functions.analyzedForDecoded ++
    if functions.candidates.isEmpty then []
    else
      [("  identified decoding functions\n  (offset, score, and number of xrefs to)",
        wrap (", ".intercalate (functions.candidates.entries.map candidateText))
          (max pathWidth Metadata.rightWidth))]

/-- The rows about the run. -/
def runRows (doc : Document) : List Row :=
  let metadata := doc.metadata
  [("start date", metadata.timings.startDate.display),
    ("runtime", Metadata.duration metadata.timings.total),
    ("version", metadata.version),
    ("identified language", metadata.languageSummary),
    ("imagebase", Hex.address metadata.imageBase),
    ("min string length", toString metadata.minLength.toNat)]

/-- All rows, for a file path as it is shown. -/
def metadataRows (doc : Document) (verbose : Bool) (path : String) : List Row :=
  (padRight "file path" Metadata.leftWidth, padRight path Metadata.rightWidth) ::
    (if verbose then doc.runRows
      else [("identified language", doc.metadata.languageSummary)]) ++
    ("extracted strings", "") :: doc.techniqueRows ++
    (if verbose then doc.functionRows (displayWidth path) else [])

/-- The cells of a row. -/
def metadataCells (row : Row) : List StyledText := [.plain row.1, .plain row.2]

def metadataRow (row : Row) : Vector StyledText 2 := ⟨(metadataCells row).toArray, rfl⟩

theorem mem_metadataRow {row : Row} {cell : StyledText} :
    cell ∈ (metadataRow row).toList ↔ cell = .plain row.1 ∨ cell = .plain row.2 := by
  simp [metadataRow, metadataCells]

/-- The grid of the rows. -/
def metadataGrid (rows : List Row) : Grid 2 where
  columns := #v["field", "value"]
  rows := rows.map metadataRow
  showHeader := false
  border := .framed

/-- The metadata as it is rendered. -/
def metadataBlocks (doc : Document) (policy : Policy) (sanitizer : Sanitizer) :
    Traced (List Block) := do
  let path ← sanitizer.display doc.metadata.filePath false
  let rows := doc.metadataRows policy.isVerbose path
  Traced.tell (.metadataRendered rows.length)
  return [.grid (metadataGrid rows)]

end Document
end StringReport
