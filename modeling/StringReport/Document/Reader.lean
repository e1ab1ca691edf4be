import StringReport.Document.Basic
import StringReport.Json.Record

/-!
# Reading a document

The records of a document by their fields. A field with a value to fall back on may be left
out, so that older documents can still be read.
-/
namespace StringReport

open Json (Schema Decoder)

/-- A timestamp in internet format. -/
def Timestamp.decode : Decoder Timestamp
  | .string s => do
    let text ← s.decode
    match Timestamp.read text.toList with
    | .ok t => .ok t
    | .error fault => .error (.refused fault.message)
  | node => .error (node.mismatch .timestamp)

def Encoding.decode : Decoder Encoding :=
  Json.variant ([.ascii, .utf16].map fun e : Encoding => (e.label, e))

def Region.decode : Decoder Region :=
  Json.variant ([.stack, .global, .heap].map fun r : Region => (r.label, r))

def Timings.schema : Schema Timings where
  title := "Runtime"
  fields := [
    .optional "start_date" Timestamp.decode .epoch,
    .optional "total" Json.real .zero,
    .optional "vivisect" Json.real .zero,
    .optional "find_features" Json.real .zero,
    .optional "static_strings" Json.real .zero,
    .optional "language_strings" Json.real .zero,
    .optional "stack_strings" Json.real .zero,
    .optional "decoded_strings" Json.real .zero,
    .optional "tight_strings" Json.real .zero]
  build v := ⟨v ⟨0, by decide⟩, v ⟨1, by decide⟩, v ⟨2, by decide⟩, v ⟨3, by decide⟩,
    v ⟨4, by decide⟩, v ⟨5, by decide⟩, v ⟨6, by decide⟩, v ⟨7, by decide⟩, v ⟨8, by decide⟩⟩

def Metadata.schema : Schema Metadata where
  title := "Metadata"
  fields := [
    .required "file_path" Json.text,
    .optional "version" Json.text "",
    .optional "imagebase" Json.word64 0,
    .optional "min_length" Json.word32 0,
    .optional "runtime" Timings.schema.decode {},
    .optional "language" Json.text "",
    .optional "language_version" Json.text "",
    .optional "language_selected" Json.text ""]
  build v := ⟨v ⟨0, by decide⟩, v ⟨1, by decide⟩, v ⟨2, by decide⟩, v ⟨3, by decide⟩,
    v ⟨4, by decide⟩, v ⟨5, by decide⟩, v ⟨6, by decide⟩, v ⟨7, by decide⟩⟩

def Score.schema : Schema Score where
  title := "DecodingFunctionScore"
  fields := [.required "score" Json.real, .required "xrefs_to" Json.word64]
  build v := ⟨v ⟨0, by decide⟩, v ⟨1, by decide⟩⟩

def ScoreTable.decode : Decoder ScoreTable :=
  Json.table Score.schema.decode .empty ScoreTable.insert

def FunctionCounts.schema : Schema FunctionCounts where
  title := "Functions"
  fields := [
    .optional "discovered" Json.word64 0,
    .optional "library" Json.word64 0,
    .optional "analyzed_stack_strings" Json.word64 0,
    .optional "analyzed_tight_strings" Json.word64 0,
    .optional "analyzed_decoded_strings" Json.word64 0,
    .optional "decoding_function_scores" ScoreTable.decode .empty]
  build v := ⟨v ⟨0, by decide⟩, v ⟨1, by decide⟩, v ⟨2, by decide⟩, v ⟨3, by decide⟩,
    v ⟨4, by decide⟩, v ⟨5, by decide⟩⟩

def Analysis.schema : Schema Analysis where
  title := "Analysis"
  fields := [
    .optional "enable_static_strings" Json.flag true,
    .optional "enable_stack_strings" Json.flag true,
    .optional "enable_tight_strings" Json.flag true,
    .optional "enable_decoded_strings" Json.flag true,
    .optional "enable_language_strings" Json.flag true,
    .optional "functions" FunctionCounts.schema.decode {}]
  build v := ⟨v ⟨0, by decide⟩, v ⟨1, by decide⟩, v ⟨2, by decide⟩, v ⟨3, by decide⟩,
    v ⟨4, by decide⟩, v ⟨5, by decide⟩⟩

def StaticString.schema : Schema StaticString where
  title := "StaticString"
  fields := [
    .required "string" Json.text,
    .required "offset" Json.word64,
    .required "encoding" Encoding.decode]
  build v := ⟨v ⟨0, by decide⟩, v ⟨1, by decide⟩, v ⟨2, by decide⟩⟩

def LanguageString.schema : Schema LanguageString where
  title := "LanguageString"
  fields := [.required "string" Json.text, .required "offset" Json.word64]
  build v := ⟨v ⟨0, by decide⟩, v ⟨1, by decide⟩⟩

def FrameString.schema : Schema FrameString where
  title := "StackString"
  fields := [
    .required "function" Json.word64,
    .required "string" Json.text,
    .required "program_counter" Json.word64,
    .optional "stack_pointer" Json.word64 0,
    .optional "original_stack_pointer" Json.word64 0,
    .optional "offset" Json.word64 0,
    .required "frame_offset" Json.word64]
  build v := ⟨v ⟨0, by decide⟩, v ⟨1, by decide⟩, v ⟨2, by decide⟩, v ⟨3, by decide⟩,
    v ⟨4, by decide⟩, v ⟨5, by decide⟩, v ⟨6, by decide⟩⟩

def DecodedString.schema : Schema DecodedString where
  title := "DecodedString"
  fields := [
    .optional "address" (Json.optional Json.word64) none,
    .required "address_type" Region.decode,
    .required "string" Json.text,
    .required "decoded_at" Json.word64,
    .required "decoding_routine" Json.word64]
  build v := ⟨v ⟨0, by decide⟩, v ⟨1, by decide⟩, v ⟨2, by decide⟩, v ⟨3, by decide⟩,
    v ⟨4, by decide⟩⟩

def Findings.schema : Schema Findings where
  title := "Strings"
  fields := [
    .optional "stack_strings" (Json.list FrameString.schema.decode) [],
    .optional "tight_strings" (Json.list FrameString.schema.decode) [],
    .optional "decoded_strings" (Json.list DecodedString.schema.decode) [],
    .optional "static_strings" (Json.list StaticString.schema.decode) [],
    .optional "language_strings" (Json.list LanguageString.schema.decode) [],
    .optional "language_strings_missed" (Json.list LanguageString.schema.decode) []]
  build v := ⟨v ⟨0, by decide⟩, v ⟨1, by decide⟩, v ⟨2, by decide⟩, v ⟨3, by decide⟩,
    v ⟨4, by decide⟩, v ⟨5, by decide⟩⟩

def Document.schema : Schema Document where
  title := "ResultDocument"
  fields := [
    .required "metadata" Metadata.schema.decode,
    .required "analysis" Analysis.schema.decode,
    .required "strings" Findings.schema.decode]
  build v := ⟨v ⟨0, by decide⟩, v ⟨1, by decide⟩, v ⟨2, by decide⟩⟩

/-- Read a document from its text, which holds nothing else. -/
def Document.ofText (text : String) : Except Json.Fault Document := do
  let outline := Json.outline text.toList
  let doc ← Document.schema.decode outline.root
  if outline.trailing then .error .trailing else .ok doc

end StringReport
