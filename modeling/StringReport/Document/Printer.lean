import StringReport.Document.Basic
import StringReport.Json.Value

/-!
# Writing a document

A document is written with all its fields, in the order in which the records declare them.
-/
namespace StringReport

open Json (Value)

namespace Json.Value

def word64 (n : UInt64) : Value := .natural n.toNat

def word32 (n : UInt32) : Value := .natural n.toNat

def word64? : Option UInt64 → Value
  | none => .null
  | some n => word64 n

end Json.Value

def Timings.toJson (t : Timings) : Value :=
  .object [
    ("start_date", .string t.startDate.text),
    ("total", .real t.total),
    ("vivisect", .real t.emulation),
    ("find_features", .real t.findFeatures),
    ("static_strings", .real t.staticStrings),
    ("language_strings", .real t.languageStrings),
    ("stack_strings", .real t.stackStrings),
    ("decoded_strings", .real t.decodedStrings),
    ("tight_strings", .real t.tightStrings)]

def Metadata.toJson (m : Metadata) : Value :=
  .object [
    ("file_path", .string m.filePath),
    ("version", .string m.version),
    ("imagebase", .word64 m.imageBase),
    ("min_length", .word32 m.minLength),
    ("runtime", m.timings.toJson),
    ("language", .string m.language),
    ("language_version", .string m.languageVersion),
    ("language_selected", .string m.languageSelected)]

def Score.toJson (s : Score) : Value :=
  .object [("score", .real s.score), ("xrefs_to", .word64 s.references)]

/-- Candidates by address; an address is written in decimal, as a key. -/
def ScoreTable.toJson (table : ScoreTable) : Value :=
  .object (table.entries.map fun (address, score) => (toString address.toNat, score.toJson))

def FunctionCounts.toJson (f : FunctionCounts) : Value :=
  .object [
    ("discovered", .word64 f.discovered),
    ("library", .word64 f.library),
    ("analyzed_stack_strings", .word64 f.analyzedForStack),
    ("analyzed_tight_strings", .word64 f.analyzedForTight),
    ("analyzed_decoded_strings", .word64 f.analyzedForDecoded),
    ("decoding_function_scores", f.candidates.toJson)]

def Analysis.toJson (a : Analysis) : Value :=
  .object [
    ("enable_static_strings", .boolean a.staticEnabled),
    ("enable_stack_strings", .boolean a.stackEnabled),
    ("enable_tight_strings", .boolean a.tightEnabled),
    ("enable_decoded_strings", .boolean a.decodedEnabled),
    ("enable_language_strings", .boolean a.languageEnabled),
    ("functions", a.functions.toJson)]

def StaticString.toJson (s : StaticString) : Value :=
  .object [
    ("string", .string s.string),
    ("offset", .word64 s.offset),
    ("encoding", .string s.encoding.label)]

def LanguageString.toJson (s : LanguageString) : Value :=
  .object [("string", .string s.string), ("offset", .word64 s.offset)]

def FrameString.toJson (s : FrameString) : Value :=
  .object [
    ("function", .word64 s.function),
    ("string", .string s.string),
    ("program_counter", .word64 s.programCounter),
    ("stack_pointer", .word64 s.stackPointer),
    ("original_stack_pointer", .word64 s.initialStackPointer),
    ("offset", .word64 s.offset),
    ("frame_offset", .word64 s.frameOffset)]

def DecodedString.toJson (s : DecodedString) : Value :=
  .object [
    ("address", .word64? s.address),
    ("address_type", .string s.region.label),
    ("string", .string s.string),
    ("decoded_at", .word64 s.decodedAt),
    ("decoding_routine", .word64 s.routine)]

def Findings.toJson (f : Findings) : Value :=
  .object [
    ("stack_strings", .list (f.stack.map FrameString.toJson)),
    ("tight_strings", .list (f.tight.map FrameString.toJson)),
    ("decoded_strings", .list (f.decoded.map DecodedString.toJson)),
    ("static_strings", .list (f.static.map StaticString.toJson)),
    ("language_strings", .list (f.language.map LanguageString.toJson)),
    ("language_strings_missed", .list (f.languageMissed.map LanguageString.toJson))]

def Document.toJson (d : Document) : Value :=
  .object [
    ("metadata", d.metadata.toJson),
    ("analysis", d.analysis.toJson),
    ("strings", d.findings.toJson)]

/-- The text of a document. -/
def Document.text (d : Document) : String := d.toJson.text

end StringReport
