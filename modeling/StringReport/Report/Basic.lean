import StringReport.Report.Filling

/-!
# The report

A report is made of sections in a fixed order: the title with the metadata, static strings,
strings of a language runtime, stack, tight and decoded strings. Those that do not apply are
left out. The sections are put below one another, and each but the first of them begins with a
blank line.
-/
namespace StringReport

/-- The sections of a report. -/
inductive Section where
  | title
  | static
  | language (language : Language)
  | stack
  | tight
  | decoded
  deriving DecidableEq, Repr

/-- What there is of a report so far, and whether it has begun. -/
structure Draft where
  blocks : List Block := []
  started : Bool := false

namespace Draft

/-- A blank line if the report has begun; it has now. -/
def separate (draft : Draft) : Draft where
  blocks := if draft.started then draft.blocks ++ [.blank] else draft.blocks
  started := true

/-- One more section. -/
def join (draft : Draft) (part : List Block) : Draft :=
  { draft.separate with blocks := draft.separate.blocks ++ part }

theorem blocks_foldl_join_of_started {draft : Draft} (h : draft.started = true)
    (parts : List (List Block)) :
    (parts.foldl join draft).blocks = draft.blocks ++ parts.flatMap (Block.blank :: ·) := by
  induction parts generalizing draft with
  | nil => exact (List.append_nil _).symm
  | cons part parts ih =>
    have hjoin : (draft.join part).blocks = draft.blocks ++ Block.blank :: part := by
      simp [join, separate, h]
    rw [List.foldl_cons, ih rfl, hjoin, List.flatMap_cons, List.append_assoc]

/-- All parts but the first come after a separator. -/
theorem intercalate_cons_eq_flatMap {α : Type} (separator part : List α) (parts : List (List α)) :
    separator.intercalate (part :: parts) = part ++ parts.flatMap (separator ++ ·) := by
  induction parts generalizing part with
  | nil => simp
  | cons next parts ih =>
    rw [List.intercalate_cons_cons, ih, List.flatMap_cons, List.append_assoc, List.append_assoc]

/-- Sections that are put below one another have a blank line between each of them and the
next. -/
theorem blocks_foldl_join (parts : List (List Block)) :
    (parts.foldl join {}).blocks = [Block.blank].intercalate parts := by
  cases parts with
  | nil => rfl
  | cons part parts =>
    rw [List.foldl_cons, blocks_foldl_join_of_started rfl, intercalate_cons_eq_flatMap]
    rfl

end Draft

namespace Report

/-- The sections that a report on a document has, in order. -/
def sections (policy : Policy) (doc : Document) : List Section :=
  (if policy.headers then [.title] else []) ++
  (if doc.analysis.staticEnabled then [.static] else []) ++
  (doc.language?.map Section.language).toList ++
  (if doc.analysis.stackEnabled then [.stack] else []) ++
  (if doc.analysis.tightEnabled then [.tight] else []) ++
  (if doc.analysis.decodedEnabled then [.decoded] else [])

/-- The title line. -/
def titleLine (policy : Policy) (doc : Document) : StyledText :=
  let text := headingTitle ("RESULTS (version " ++ doc.metadata.version ++ ")")
  if policy.isVerbose then .accent text else .plain text

/-- The blocks of one section. -/
def sectionBlocks (policy : Policy) (sanitizer : Sanitizer) (doc : Document) :
    Section → Traced (List Block)
  | .title => do
    let metadata ← doc.metadataBlocks policy sanitizer
    return .line (titleLine policy doc) :: .blank :: metadata
  | .static => staticBlocks policy sanitizer doc.findings.static
  | .language language =>
    languageBlocks policy sanitizer language doc.findings.language doc.findings.languageMissed
  | .stack => frameBlocks policy sanitizer "STACK" doc.findings.stack
  | .tight => frameBlocks policy sanitizer "TIGHT" doc.findings.tight
  | .decoded => decodedBlocks policy sanitizer doc.findings.decoded

/-- The canvas of a policy. -/
def canvas (policy : Policy) : Canvas := ⟨policy.headers, policy.colorsEnabled⟩

/-- The blocks of a report. -/
def blocks (policy : Policy) (sanitizer : Sanitizer) (doc : Document) :
    Traced (List Block) := do
  let draft ← (sections policy doc).foldlM
    (fun (draft : Draft) part => return draft.join (← sectionBlocks policy sanitizer doc part)) {}
  return draft.blocks

/-- The report under a policy. -/
def draw (policy : Policy) (sanitizer : Sanitizer) (doc : Document) : Traced String := do
  let parts ← blocks policy sanitizer doc
  return (canvas policy).draw parts

/-- The blocks of one section, its tables filled row by row. -/
def fillSection (policy : Policy) (sanitizer : Sanitizer) (doc : Document) :
    Section → Filling (List Block)
  | .title => do
    let metadata ← doc.fillMetadata policy sanitizer
    return .line (titleLine policy doc) :: .blank :: metadata
  | .static => staticBlocks policy sanitizer doc.findings.static
  | .language language =>
    languageBlocks policy sanitizer language doc.findings.language doc.findings.languageMissed
  | .stack => fillFrames policy sanitizer "STACK" doc.findings.stack
  | .tight => fillFrames policy sanitizer "TIGHT" doc.findings.tight
  | .decoded => fillDecoded policy sanitizer doc.findings.decoded

/-- The report under a policy, its tables filled row by row. -/
def assemble (policy : Policy) (sanitizer : Sanitizer) (doc : Document) : Filling String := do
  let draft ← (sections policy doc).foldlM
    (fun (draft : Draft) part => return draft.join (← fillSection policy sanitizer doc part)) {}
  return (canvas policy).draw draft.blocks

/-- The report for a caller's options, on an output that is a terminal or is not. -/
def render (options : Options) (terminal : Bool) (sanitizer : Sanitizer) (doc : Document) :
    Except RenderFault (Traced String) := do
  let policy ← Policy.ofOptions options terminal
  (assemble policy sanitizer doc).outcome

/-- The blocks of a report are those of its sections, with a blank line between each of them and
the next. -/
theorem blocks_eq_intercalate (policy : Policy) (sanitizer : Sanitizer) (doc : Document) :
    blocks policy sanitizer doc =
      [Block.blank].intercalate <$>
        Traced.each (sections policy doc) (sectionBlocks policy sanitizer doc) := by
  rw [blocks, Traced.foldlM_eq_map_each]
  refine Traced.ext ?_ ?_
  · exact Draft.blocks_foldl_join _
  · simp

/-- The title is a section only where headers are shown. -/
theorem headers_of_title_mem {policy : Policy} {doc : Document}
    (h : Section.title ∈ sections policy doc) : policy.headers = true := by
  cases hheaders : policy.headers with
  | true => rfl
  | false => simp [sections, hheaders] at h

end Report
end StringReport
