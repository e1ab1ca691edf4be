import StringReport.Report.Routines

/-!
# Filling the tables of a report

The tables of a report are filled while it is rendered, row by row. A row has to have a cell
for each column of its table, and the first that has not ends the work: there is no report then,
only the fault.
-/
namespace StringReport

/-- Traced work that a row can end. -/
abbrev Filling (α : Type) : Type := ExceptT RenderFault Traced α

/-- What the work has come to, with all that was noted, unless a row has ended it. -/
def Filling.outcome {α : Type} (work : Filling α) : Except RenderFault (Traced α) :=
  work.run.value.map fun a => ⟨a, work.run.notes⟩

namespace Grid

variable {n : Nat}

/-- A grid with one more row, if the cells fit; otherwise the work ends. -/
def fillRow (grid : Grid n) (cells : List StyledText) : Filling (Grid n) :=
  match grid.pushCells cells with
  | .ok grid => pure grid
  | .error mismatch => throw (.badRow mismatch)

/-- A grid with one more row for each of some records. -/
def fill {α : Type} (grid : Grid n) (records : List α) (cells : α → Traced (List StyledText)) :
    Filling (Grid n) :=
  records.foldlM (fun grid record => do grid.fillRow (← cells record)) grid

end Grid

/-- The metadata as it is rendered. -/
def Document.fillMetadata (doc : Document) (policy : Policy) (sanitizer : Sanitizer) :
    Filling (List Block) := do
  let path ← sanitizer.display doc.metadata.filePath false
  let rows := doc.metadataRows policy.isVerbose path
  let grid ← (metadataGrid []).fill rows fun row => return metadataCells row
  Traced.tell (.metadataRendered grid.size)
  return [.grid grid]

/-- The section for frame strings of one technique. Without strings there is no table. -/
def fillFrames (policy : Policy) (sanitizer : Sanitizer) (label : String)
    (strings : List FrameString) : Filling (List Block) := do
  let body ←
    if policy.isVerbose then
      if strings.isEmpty then pure []
      else do
        let grid ← (frameGrid policy []).fill strings fun s => do
          let value ← sanitizer.display s.string false
          return frameCells s value
        pure [Block.grid grid]
    else plainLines sanitizer (strings.map (·.string))
  Traced.tell (.frameRendered label strings.length)
  return sectionHeading policy label strings.length :: body

/-- The strings of one routine under its address. -/
def fillRoutine (policy : Policy) (sanitizer : Sanitizer) (group : UInt64 × List DecodedString) :
    Filling (List Block) := do
  let grid ← (decodedGrid policy []).fill group.2 fun s => do
    let value ← sanitizer.display s.string false
    return decodedCells s value
  return [.subHeading ((StyledText.plain " FUNCTION at ").push (Hex.address group.1) .accent)
      group.2.length,
    .grid grid, .blank]

/-- The section for decoded strings. -/
def fillDecoded (policy : Policy) (sanitizer : Sanitizer) (strings : List DecodedString) :
    Filling (List Block) := do
  let heading := sectionHeading policy "DECODED" strings.length
  if policy.isVerbose then
    let groups := DecodedString.groupByRoutine strings
    let blocks ← groups.mapM (fillRoutine policy sanitizer)
    Traced.tell (.decodedRendered strings.length groups.length)
    return heading :: blocks.flatten
  else
    let lines ← plainLines sanitizer (strings.map (·.string))
    return heading :: lines

end StringReport
