import StringReport.Document.Reader
import StringReport.Proofs.DeclaredRecords
import StringReport.Proofs.DeclaredTables
import StringReport.Proofs.TimestampGrammar

/-!
# What documents stand for

The records of a document, declared column by column: the name of each, what stands for it, and
what it holds if nothing does. The schemas by which a document is read accept just the nodes of
these declarations.
-/
namespace StringReport

open Json (Column Tree Decodes Schema)
open Json.Fields (Values)

/-! ## Declarations -/

/-- A string that holds a timestamp in internet format. -/
def Timestamp.Means (tree : Tree) (t : Timestamp) : Prop :=
  ∃ text : String, tree.MeansText text ∧ t.Text text.toList

def Encoding.Means : Tree → Encoding → Prop := Tree.MeansVariant Encoding.label

def Region.Means : Tree → Region → Prop := Tree.MeansVariant Region.label

/-- The columns of a run, none of which has to be there. -/
def Timings.columns : List (Column Timings) := [
  .optional "start_date" Timestamp.Means startDate .epoch,
  .optional "total" Tree.MeansReal total .zero,
  .optional "vivisect" Tree.MeansReal emulation .zero,
  .optional "find_features" Tree.MeansReal findFeatures .zero,
  .optional "static_strings" Tree.MeansReal staticStrings .zero,
  .optional "language_strings" Tree.MeansReal languageStrings .zero,
  .optional "stack_strings" Tree.MeansReal stackStrings .zero,
  .optional "decoded_strings" Tree.MeansReal decodedStrings .zero,
  .optional "tight_strings" Tree.MeansReal tightStrings .zero]

def Timings.Means : Tree → Timings → Prop := Tree.MeansRecord columns

def Metadata.columns : List (Column Metadata) := [
  .required "file_path" Tree.MeansText filePath,
  .optional "version" Tree.MeansText version "",
  .optional "imagebase" Tree.MeansWord64 imageBase 0,
  .optional "min_length" Tree.MeansWord32 minLength 0,
  .optional "runtime" Timings.Means timings {},
  .optional "language" Tree.MeansText language "",
  .optional "language_version" Tree.MeansText languageVersion "",
  .optional "language_selected" Tree.MeansText languageSelected ""]

def Metadata.Means : Tree → Metadata → Prop := Tree.MeansRecord columns

def Score.columns : List (Column Score) := [
  .required "score" Tree.MeansReal score,
  .required "xrefs_to" Tree.MeansWord64 references]

def Score.Means : Tree → Score → Prop := Tree.MeansRecord columns

/-- A table has the last score that is given for each address. -/
def ScoreTable.Means (tree : Tree) (table : ScoreTable) : Prop :=
  ∃ entries, tree.MeansEntries Score.Means entries ∧
    ∀ address score, (address, score) ∈ table.entries ↔
      entries.reverse.lookup address = some score

def FunctionCounts.columns : List (Column FunctionCounts) := [
  .optional "discovered" Tree.MeansWord64 discovered 0,
  .optional "library" Tree.MeansWord64 library 0,
  .optional "analyzed_stack_strings" Tree.MeansWord64 analyzedForStack 0,
  .optional "analyzed_tight_strings" Tree.MeansWord64 analyzedForTight 0,
  .optional "analyzed_decoded_strings" Tree.MeansWord64 analyzedForDecoded 0,
  .optional "decoding_function_scores" ScoreTable.Means candidates .empty]

def FunctionCounts.Means : Tree → FunctionCounts → Prop := Tree.MeansRecord columns

def Analysis.columns : List (Column Analysis) := [
  .optional "enable_static_strings" Tree.MeansFlag staticEnabled true,
  .optional "enable_stack_strings" Tree.MeansFlag stackEnabled true,
  .optional "enable_tight_strings" Tree.MeansFlag tightEnabled true,
  .optional "enable_decoded_strings" Tree.MeansFlag decodedEnabled true,
  .optional "enable_language_strings" Tree.MeansFlag languageEnabled true,
  .optional "functions" FunctionCounts.Means functions {}]

def Analysis.Means : Tree → Analysis → Prop := Tree.MeansRecord columns

def StaticString.columns : List (Column StaticString) := [
  .required "string" Tree.MeansText string,
  .required "offset" Tree.MeansWord64 offset,
  .required "encoding" Encoding.Means encoding]

def StaticString.Means : Tree → StaticString → Prop := Tree.MeansRecord columns

def LanguageString.columns : List (Column LanguageString) := [
  .required "string" Tree.MeansText string,
  .required "offset" Tree.MeansWord64 offset]

def LanguageString.Means : Tree → LanguageString → Prop := Tree.MeansRecord columns

def FrameString.columns : List (Column FrameString) := [
  .required "function" Tree.MeansWord64 function,
  .required "string" Tree.MeansText string,
  .required "program_counter" Tree.MeansWord64 programCounter,
  .optional "stack_pointer" Tree.MeansWord64 stackPointer 0,
  .optional "original_stack_pointer" Tree.MeansWord64 initialStackPointer 0,
  .optional "offset" Tree.MeansWord64 offset 0,
  .required "frame_offset" Tree.MeansWord64 frameOffset]

def FrameString.Means : Tree → FrameString → Prop := Tree.MeansRecord columns

/-- The columns of a decoded string. An address may be null and may be left out. -/
def DecodedString.columns : List (Column DecodedString) := [
  .optional "address" (Tree.MeansOptional Tree.MeansWord64) address none,
  .required "address_type" Region.Means region,
  .required "string" Tree.MeansText string,
  .required "decoded_at" Tree.MeansWord64 decodedAt,
  .required "decoding_routine" Tree.MeansWord64 routine]

def DecodedString.Means : Tree → DecodedString → Prop := Tree.MeansRecord columns

def Findings.columns : List (Column Findings) := [
  .optional "stack_strings" (Tree.MeansList FrameString.Means) stack [],
  .optional "tight_strings" (Tree.MeansList FrameString.Means) tight [],
  .optional "decoded_strings" (Tree.MeansList DecodedString.Means) decoded [],
  .optional "static_strings" (Tree.MeansList StaticString.Means) static [],
  .optional "language_strings" (Tree.MeansList LanguageString.Means) language [],
  .optional "language_strings_missed" (Tree.MeansList LanguageString.Means) languageMissed []]

def Findings.Means : Tree → Findings → Prop := Tree.MeansRecord columns

def Document.columns : List (Column Document) := [
  .required "metadata" Metadata.Means metadata,
  .required "analysis" Analysis.Means analysis,
  .required "strings" Findings.Means findings]

/-- What stands for a document. -/
def Document.Means : Tree → Document → Prop := Tree.MeansRecord columns

/-! ## Decoders of the declarations -/

open Json Column

theorem Timestamp.decodes : Decodes Timestamp.decode Timestamp.Means := by
  intro node hunbroken t
  constructor
  · intro h
    unfold Timestamp.decode at h
    split at h
    · next raw =>
      obtain ⟨text, htext, hread⟩ := exists_of_bind_eq_ok h
      obtain ⟨tree, htree, hmeans⟩ := (decodes_text (.string raw) hunbroken text).1 htext
      split at hread
      · next hok =>
        obtain rfl := Except.ok.inj hread
        exact ⟨tree, htree, text, hmeans, read_eq_ok.1 hok⟩
      · cases hread
    · cases h
  · rintro ⟨tree, htree, text, hmeans, hwritten⟩
    have htext := (decodes_text.iff_of_shows hunbroken htree).2 hmeans
    cases node with
    | string raw =>
      have hdecode : raw.decode = .ok text := htext
      simp only [Timestamp.decode, hdecode, bind, Except.bind, read_eq_ok.2 hwritten]
    | _ => cases htext

theorem Encoding.decodes : Decodes Encoding.decode Encoding.Means :=
  decodes_variant (fun e => by cases e <;> decide) fun e e' => by cases e <;> cases e' <;> decide

theorem Region.decodes : Decodes Region.decode Region.Means :=
  decodes_variant (fun r => by cases r <;> decide) fun r r' => by cases r <;> cases r' <;> decide

theorem Timings.declares : Timings.schema.Declares columns where
  describes := .cons (fits_optional Timestamp.decodes fun _ => rfl) <|
    .cons (fits_optional decodes_real fun _ => rfl) <|
    .cons (fits_optional decodes_real fun _ => rfl) <|
    .cons (fits_optional decodes_real fun _ => rfl) <|
    .cons (fits_optional decodes_real fun _ => rfl) <|
    .cons (fits_optional decodes_real fun _ => rfl) <|
    .cons (fits_optional decodes_real fun _ => rfl) <|
    .cons (fits_optional decodes_real fun _ => rfl) <|
    .cons (fits_optional decodes_real fun _ => rfl) .nil
  distinct := by decide
  onto t := ⟨.cons t.startDate <| .cons t.total <| .cons t.emulation <| .cons t.findFeatures <|
      .cons t.staticStrings <| .cons t.languageStrings <| .cons t.stackStrings <|
      .cons t.decodedStrings <| .cons t.tightStrings .nil, rfl⟩

theorem Timings.decodes : Decodes Timings.schema.decode Timings.Means := declares.decodes

theorem Metadata.declares : Metadata.schema.Declares columns where
  describes := .cons (fits_required decodes_text fun _ => rfl) <|
    .cons (fits_optional decodes_text fun _ => rfl) <|
    .cons (fits_optional decodes_word64 fun _ => rfl) <|
    .cons (fits_optional decodes_word32 fun _ => rfl) <|
    .cons (fits_optional Timings.decodes fun _ => rfl) <|
    .cons (fits_optional decodes_text fun _ => rfl) <|
    .cons (fits_optional decodes_text fun _ => rfl) <|
    .cons (fits_optional decodes_text fun _ => rfl) .nil
  distinct := by decide
  onto m := ⟨.cons m.filePath <| .cons m.version <| .cons m.imageBase <| .cons m.minLength <|
      .cons m.timings <| .cons m.language <| .cons m.languageVersion <|
      .cons m.languageSelected .nil, rfl⟩

theorem Metadata.decodes : Decodes Metadata.schema.decode Metadata.Means := declares.decodes

theorem Score.declares : Score.schema.Declares columns where
  describes := .cons (fits_required decodes_real fun _ => rfl) <|
    .cons (fits_required decodes_word64 fun _ => rfl) .nil
  distinct := by decide
  onto s := ⟨.cons s.score <| .cons s.references .nil, rfl⟩

theorem Score.decodes : Decodes Score.schema.decode Score.Means := declares.decodes

theorem ScoreTable.decodes : Decodes ScoreTable.decode ScoreTable.Means := by
  intro node hunbroken table
  rw [ScoreTable.decode, decodes_table Score.decodes .empty ScoreTable.insert node hunbroken table]
  have hiff (entries : List (UInt64 × Score)) :
      entries.foldl (fun built entry => built.insert entry.1 entry.2) .empty = table ↔
        ∀ address score, (address, score) ∈ table.entries ↔
          entries.reverse.lookup address = some score := by
    constructor
    · rintro rfl address score
      exact mem_foldl_insert entries
    · intro h
      refine eq_of_mem_iff fun ⟨address, score⟩ => ?_
      rw [mem_foldl_insert, h]
  simp only [hiff]
  rfl

theorem FunctionCounts.declares : FunctionCounts.schema.Declares columns where
  describes := .cons (fits_optional decodes_word64 fun _ => rfl) <|
    .cons (fits_optional decodes_word64 fun _ => rfl) <|
    .cons (fits_optional decodes_word64 fun _ => rfl) <|
    .cons (fits_optional decodes_word64 fun _ => rfl) <|
    .cons (fits_optional decodes_word64 fun _ => rfl) <|
    .cons (fits_optional ScoreTable.decodes fun _ => rfl) .nil
  distinct := by decide
  onto f := ⟨.cons f.discovered <| .cons f.library <| .cons f.analyzedForStack <|
      .cons f.analyzedForTight <| .cons f.analyzedForDecoded <| .cons f.candidates .nil, rfl⟩

theorem FunctionCounts.decodes : Decodes FunctionCounts.schema.decode FunctionCounts.Means :=
  declares.decodes

theorem Analysis.declares : Analysis.schema.Declares columns where
  describes := .cons (fits_optional decodes_flag fun _ => rfl) <|
    .cons (fits_optional decodes_flag fun _ => rfl) <|
    .cons (fits_optional decodes_flag fun _ => rfl) <|
    .cons (fits_optional decodes_flag fun _ => rfl) <|
    .cons (fits_optional decodes_flag fun _ => rfl) <|
    .cons (fits_optional FunctionCounts.decodes fun _ => rfl) .nil
  distinct := by decide
  onto a := ⟨.cons a.staticEnabled <| .cons a.stackEnabled <| .cons a.tightEnabled <|
      .cons a.decodedEnabled <| .cons a.languageEnabled <| .cons a.functions .nil, rfl⟩

theorem Analysis.decodes : Decodes Analysis.schema.decode Analysis.Means := declares.decodes

theorem StaticString.declares : StaticString.schema.Declares columns where
  describes := .cons (fits_required decodes_text fun _ => rfl) <|
    .cons (fits_required decodes_word64 fun _ => rfl) <|
    .cons (fits_required Encoding.decodes fun _ => rfl) .nil
  distinct := by decide
  onto s := ⟨.cons s.string <| .cons s.offset <| .cons s.encoding .nil, rfl⟩

theorem StaticString.decodes : Decodes StaticString.schema.decode StaticString.Means :=
  declares.decodes

theorem LanguageString.declares : LanguageString.schema.Declares columns where
  describes := .cons (fits_required decodes_text fun _ => rfl) <|
    .cons (fits_required decodes_word64 fun _ => rfl) .nil
  distinct := by decide
  onto s := ⟨.cons s.string <| .cons s.offset .nil, rfl⟩

theorem LanguageString.decodes : Decodes LanguageString.schema.decode LanguageString.Means :=
  declares.decodes

theorem FrameString.declares : FrameString.schema.Declares columns where
  describes := .cons (fits_required decodes_word64 fun _ => rfl) <|
    .cons (fits_required decodes_text fun _ => rfl) <|
    .cons (fits_required decodes_word64 fun _ => rfl) <|
    .cons (fits_optional decodes_word64 fun _ => rfl) <|
    .cons (fits_optional decodes_word64 fun _ => rfl) <|
    .cons (fits_optional decodes_word64 fun _ => rfl) <|
    .cons (fits_required decodes_word64 fun _ => rfl) .nil
  distinct := by decide
  onto s := ⟨.cons s.function <| .cons s.string <| .cons s.programCounter <| .cons s.stackPointer <|
      .cons s.initialStackPointer <| .cons s.offset <| .cons s.frameOffset .nil, rfl⟩

theorem FrameString.decodes : Decodes FrameString.schema.decode FrameString.Means :=
  declares.decodes

theorem DecodedString.declares : DecodedString.schema.Declares columns where
  describes := .cons (fits_optional (decodes_optional decodes_word64 nofun) fun _ => rfl) <|
    .cons (fits_required Region.decodes fun _ => rfl) <|
    .cons (fits_required decodes_text fun _ => rfl) <|
    .cons (fits_required decodes_word64 fun _ => rfl) <|
    .cons (fits_required decodes_word64 fun _ => rfl) .nil
  distinct := by decide
  onto s := ⟨.cons s.address <| .cons s.region <| .cons s.string <| .cons s.decodedAt <|
      .cons s.routine .nil, rfl⟩

theorem DecodedString.decodes : Decodes DecodedString.schema.decode DecodedString.Means :=
  declares.decodes

theorem Findings.declares : Findings.schema.Declares columns where
  describes := .cons (fits_optional (decodes_list FrameString.decodes) fun _ => rfl) <|
    .cons (fits_optional (decodes_list FrameString.decodes) fun _ => rfl) <|
    .cons (fits_optional (decodes_list DecodedString.decodes) fun _ => rfl) <|
    .cons (fits_optional (decodes_list StaticString.decodes) fun _ => rfl) <|
    .cons (fits_optional (decodes_list LanguageString.decodes) fun _ => rfl) <|
    .cons (fits_optional (decodes_list LanguageString.decodes) fun _ => rfl) .nil
  distinct := by decide
  onto f := ⟨.cons f.stack <| .cons f.tight <| .cons f.decoded <| .cons f.static <|
      .cons f.language <| .cons f.languageMissed .nil, rfl⟩

theorem Findings.decodes : Decodes Findings.schema.decode Findings.Means := declares.decodes

theorem Document.declares : Document.schema.Declares columns where
  describes := .cons (fits_required Metadata.decodes fun _ => rfl) <|
    .cons (fits_required Analysis.decodes fun _ => rfl) <|
    .cons (fits_required Findings.decodes fun _ => rfl) .nil
  distinct := by decide
  onto d := ⟨.cons d.metadata <| .cons d.analysis <| .cons d.findings .nil, rfl⟩

theorem Document.decodes : Decodes Document.schema.decode Document.Means := declares.decodes

end StringReport
