import StringReport.Layout.Drawing
import StringReport.Report.Metadata

/-!
# Listings of strings

The sections for static strings, strings of a language runtime, and strings built on a
frame. Brief reports list the strings alone; verbose ones say where each was found.
-/
namespace StringReport

/-- A line with a string, after its offset if the report is verbose. -/
def offsetLine (policy : Policy) (offset : UInt64) (width : Nat) (value : String) : StyledText :=
  if policy.isVerbose then (StyledText.plain (Hex.offset offset width ++ " ")).push value .value
  else .plain value

/-- The digits that the largest of some offsets takes. -/
def offsetWidth (offsets : List UInt64) : Nat :=
  Hex.width (offsets.foldl (fun a b => if a < b then b else a) 0)

/-- A heading that counts the strings of a section. -/
def sectionHeading (policy : Policy) (label : String) (count : Nat) : Block :=
  .heading (headingTitle (label ++ " STRINGS (" ++ toString count ++ ")")) policy.isVerbose

/-! ## Static strings -/

/-- The static strings of one encoding. -/
def StaticString.ofEncoding (encoding : Encoding) (strings : List StaticString) :
    List StaticString :=
  strings.filter (·.encoding = encoding)

/-- The label of the strings of one encoding. -/
def encodingLabel (policy : Policy) (encoding : Encoding) : StyledText :=
  let text := headingTitle "STATIC STRINGS: "
  if policy.isVerbose then (StyledText.plain text).push encoding.label .accent
  else .plain (text ++ encoding.label)

/-- The strings of one encoding, under a label of their own. Only ASCII strings have other
characters escaped. -/
def encodingBlocks (policy : Policy) (sanitizer : Sanitizer) (width : Nat)
    (encoding : Encoding) (strings : List StaticString) : Traced (List Block) := do
  let lines ← Traced.each strings fun s => do
    let value ← sanitizer.display s.string (encoding = .ascii)
    return Block.line (offsetLine policy s.offset width value)
  return .subHeading (encodingLabel policy encoding) strings.length :: lines

/-- The section for static strings: the two encodings share the width of their offsets. -/
def staticBlocks (policy : Policy) (sanitizer : Sanitizer) (strings : List StaticString) :
    Traced (List Block) := do
  let ascii := StaticString.ofEncoding .ascii strings
  let utf16 := StaticString.ofEncoding .utf16 strings
  let width := offsetWidth (strings.map (·.offset))
  let first ← encodingBlocks policy sanitizer width .ascii ascii
  let second ← encodingBlocks policy sanitizer width .utf16 utf16
  Traced.tell (.staticRendered ascii.length utf16.length)
  return sectionHeading policy "STATIC" strings.length :: first ++ .blank :: second

/-! ## Strings of a language runtime -/

/-- Strings by ascending offset; those of one offset keep their order. -/
def LanguageString.sortByOffset (strings : List LanguageString) : List LanguageString :=
  strings.mergeSort fun a b => a.offset ≤ b.offset

/-- The section for the strings of a language runtime, found and missed together. -/
def languageBlocks (policy : Policy) (sanitizer : Sanitizer) (language : Language)
    (found missed : List LanguageString) : Traced (List Block) := do
  let strings := LanguageString.sortByOffset (found ++ missed)
  let width := Hex.width ((strings.getLast?.map (·.offset)).getD 0)
  let lines ← Traced.each strings fun s => do
    let value ← sanitizer.display s.string false
    return Block.line (offsetLine policy s.offset width value)
  Traced.tell (.languageRendered language strings.length)
  return sectionHeading policy language.label strings.length :: lines

/-! ## Strings built on a frame -/

/-- The cells of a frame string, for the string as it is shown. -/
def frameCells (s : FrameString) (value : String) : List StyledText :=
  [.plain (Hex.upper s.function), .plain (Hex.upper s.programCounter),
    .plain (Hex.upper s.frameOffset), .value value]

/-- A row of the table of frame strings. -/
def frameRow (sanitizer : Sanitizer) (s : FrameString) : Traced (Vector StyledText 4) := do
  let value ← sanitizer.display s.string false
  return ⟨(frameCells s value).toArray, rfl⟩

/-- The table of frame strings. -/
def frameGrid (policy : Policy) (rows : List (Vector StyledText 4)) : Grid 4 where
  columns := #v["Function", "Function Offset", "Frame Offset", "String"]
  rows := rows
  showHeader := policy.headers
  border := .inner

/-- A listing of strings without their places. -/
def plainLines (sanitizer : Sanitizer) (strings : List String) : Traced (List Block) :=
  Traced.each strings fun s => do
    let value ← sanitizer.display s false
    return Block.line (.plain value)

/-- The section for frame strings of one technique. Without strings there is no table. -/
def frameBlocks (policy : Policy) (sanitizer : Sanitizer) (label : String)
    (strings : List FrameString) : Traced (List Block) := do
  let body ←
    if policy.isVerbose then do
      let rows ← Traced.each strings (frameRow sanitizer)
      pure (if strings.isEmpty then [] else [Block.grid (frameGrid policy rows)])
    else plainLines sanitizer (strings.map (·.string))
  Traced.tell (.frameRendered label strings.length)
  return sectionHeading policy label strings.length :: body

end StringReport
