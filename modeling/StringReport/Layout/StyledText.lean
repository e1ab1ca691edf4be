import StringReport.Text.Split

/-!
# Styled text

A text is a run of spans, each in one tone. Empty spans are never pushed, and splitting a
text into lines keeps the tone of every character.
-/
namespace StringReport

/-- What a span is, as far as its style goes. -/
inductive Tone where
  | plain
  /-- Headings, and addresses in them. -/
  | accent
  /-- Extracted strings. -/
  | value
  deriving DecidableEq, Repr, Inhabited

structure Span where
  text : String
  tone : Tone
  deriving DecidableEq, Repr, Inhabited

structure StyledText where
  spans : List Span
  deriving DecidableEq, Repr, Inhabited

/-- The lines of a text, at least one. -/
def linesOf (s : String) : List String := (partsOn '\n' s.toList).map String.ofList

namespace StyledText

def empty : StyledText := ⟨[]⟩

/-- A text with one more span, unless that is empty. -/
def push (t : StyledText) (text : String) (tone : Tone) : StyledText :=
  if text = "" then t else ⟨t.spans ++ [⟨text, tone⟩]⟩

def plain (text : String) : StyledText := empty.push text .plain

def accent (text : String) : StyledText := empty.push text .accent

def value (text : String) : StyledText := empty.push text .value

/-- A text made by pushing spans in order. -/
def ofSpans (spans : List Span) : StyledText :=
  spans.foldl (fun t span => t.push span.text span.tone) empty

/-- The characters without their tones. -/
def toPlain (t : StyledText) : String := String.join (t.spans.map Span.text)

/-- The characters with their tones. -/
def characters (t : StyledText) : List (Char × Tone) :=
  t.spans.flatMap fun span => span.text.toList.map (·, span.tone)

/-- A text with a span put before it, unless that is empty. -/
def prepend (part : List Char) (tone : Tone) (t : StyledText) : StyledText :=
  if part = [] then t else ⟨⟨String.ofList part, tone⟩ :: t.spans⟩

/-- Put the lines of one span before the lines of what follows: its last line runs into the
first of those. -/
def graft (tone : Tone) (first : List Char) :
    List (List Char) → StyledText × List StyledText → StyledText × List StyledText
  | [], (line, later) => (prepend first tone line, later)
  | next :: parts, rest =>
    let (line, later) := graft tone next parts rest
    (prepend first tone empty, line :: later)

/-- The first line of a run of spans, and the lines after it. -/
def splitSpans : List Span → StyledText × List StyledText
  | [] => (empty, [])
  | span :: spans =>
    let (first, parts) := splitOn '\n' span.text.toList
    graft span.tone first parts (splitSpans spans)

/-- The lines of a text, at least one. -/
def lines (t : StyledText) : List StyledText :=
  let (first, later) := splitSpans t.spans
  first :: later

@[simp] theorem spans_empty : empty.spans = [] := rfl

@[simp] theorem push_empty (t : StyledText) (tone : Tone) : t.push "" tone = t := by
  simp [push]

/-- Pushing appends characters of one tone. -/
@[simp] theorem characters_push (t : StyledText) (text : String) (tone : Tone) :
    (t.push text tone).characters = t.characters ++ text.toList.map (·, tone) := by
  unfold push
  split
  · next h => simp [h]
  · simp [characters]

end StyledText
end StringReport
