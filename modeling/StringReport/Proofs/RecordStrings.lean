import StringReport.Proofs.FilledTables
import StringReport.Proofs.RoutineGroups

/-!
# The strings of a document

Every record has one string, and whether it is shown in ASCII is decided by the kind of the
record and, for static strings, by the encoding. Replacing all strings of a document leaves
everything else as it is, so it goes through whatever a section does with its records:
filtering by encoding, sorting by offset, grouping by routine.

From this it follows that a section depends on its sanitizer only through the replaced
strings: sanitizing while a section is rendered is replacing the strings first and rendering
them as they are.
-/
namespace StringReport

variable (f : Sanitizer)

/-! ## Records -/

def StaticString.mapString (s : StaticString) : StaticString :=
  { s with string := f s.string (s.encoding = .ascii) }

def LanguageString.mapString (s : LanguageString) : LanguageString :=
  { s with string := f s.string false }

def FrameString.mapString (s : FrameString) : FrameString :=
  { s with string := f s.string false }

def DecodedString.mapString (s : DecodedString) : DecodedString :=
  { s with string := f s.string false }

/-- All strings replaced, each by its value and whether it is shown in ASCII. -/
def Findings.mapStrings (findings : Findings) : Findings where
  stack := findings.stack.map (FrameString.mapString f)
  tight := findings.tight.map (FrameString.mapString f)
  decoded := findings.decoded.map (DecodedString.mapString f)
  static := findings.static.map (StaticString.mapString f)
  language := findings.language.map (LanguageString.mapString f)
  languageMissed := findings.languageMissed.map (LanguageString.mapString f)

/-- A document with the strings of all its records replaced. -/
def Document.mapStrings (doc : Document) : Document :=
  { doc with findings := doc.findings.mapStrings f }

/-- The sections of a report do not depend on strings. -/
@[simp] theorem Report.sections_mapStrings (policy : Policy) (doc : Document) :
    sections policy (doc.mapStrings f) = sections policy doc := rfl

/-! ## Filtering, sorting and grouping -/

theorem StaticString.ofEncoding_map (encoding : Encoding) (strings : List StaticString) :
    ofEncoding encoding (strings.map (mapString f)) =
      (ofEncoding encoding strings).map (mapString f) := by
  simp only [ofEncoding, List.filter_map]
  rfl

theorem StaticString.encoding_of_mem {encoding : Encoding} {strings : List StaticString}
    {s : StaticString} (h : s ∈ ofEncoding encoding strings) : s.encoding = encoding := by
  simpa using (List.mem_filter.1 h).2

theorem LanguageString.sortByOffset_map (strings : List LanguageString) :
    sortByOffset (strings.map (mapString f)) = (sortByOffset strings).map (mapString f) := by
  symm
  apply List.map_mergeSort
  intro a _ b _
  rfl

namespace DecodedString

/-- The strings of a group replaced. -/
def mapGroup (group : UInt64 × List DecodedString) : UInt64 × List DecodedString :=
  (group.1, group.2.map (mapString f))

theorem routines_map (strings : List DecodedString) :
    routines (strings.map (mapString f)) = routines strings := by
  rw [routines, List.map_map]
  rfl

theorem ofRoutine_map (routine : UInt64) (strings : List DecodedString) :
    ofRoutine routine (strings.map (mapString f)) =
      (ofRoutine routine strings).map (mapString f) := by
  simp only [ofRoutine, List.filter_map]
  rfl

theorem groupByRoutine_map (strings : List DecodedString) :
    groupByRoutine (strings.map (mapString f)) = (groupByRoutine strings).map (mapGroup f) := by
  simp only [groupByRoutine_eq, routines_map, ofRoutine_map, List.map_map]
  rfl

end DecodedString

/-! ## Sections -/

variable (policy : Policy)

theorem value_encodingBlocks_map (width : Nat) {encoding : Encoding}
    {strings : List StaticString} (h : ∀ s ∈ strings, s.encoding = encoding) :
    (encodingBlocks policy .identity width encoding
        (strings.map (StaticString.mapString f))).value =
      (encodingBlocks policy f width encoding strings).value := by
  have hlines : (strings.map fun s => Block.line (offsetLine policy s.offset width
        (f s.string (s.encoding = .ascii)))) =
      strings.map fun s => Block.line (offsetLine policy s.offset width
        (f s.string (encoding = .ascii))) :=
    List.map_congr_left fun s hs => by rw [h s hs]
  simp only [encodingBlocks, Traced.value_bind, Traced.value_each, Traced.value_pure,
    List.length_map, List.map_map]
  exact congrArg _ hlines

theorem value_staticBlocks_map (strings : List StaticString) :
    (staticBlocks policy .identity (strings.map (StaticString.mapString f))).value =
      (staticBlocks policy f strings).value := by
  have hwidth : (strings.map (StaticString.mapString f)).map (·.offset) =
      strings.map (·.offset) := by
    rw [List.map_map]
    rfl
  simp only [staticBlocks, Traced.value_bind, Traced.value_pure, List.length_map,
    StaticString.ofEncoding_map, hwidth]
  rw [value_encodingBlocks_map f policy _ fun s hs => StaticString.encoding_of_mem hs,
    value_encodingBlocks_map f policy _ fun s hs => StaticString.encoding_of_mem hs]

theorem value_languageBlocks_map (language : Language) (found missed : List LanguageString) :
    (languageBlocks policy .identity language (found.map (LanguageString.mapString f))
        (missed.map (LanguageString.mapString f))).value =
      (languageBlocks policy f language found missed).value := by
  simp only [languageBlocks, ← List.map_append, LanguageString.sortByOffset_map,
    Traced.value_bind, Traced.value_each, Traced.value_pure, List.length_map, List.map_map,
    List.getLast?_map, Option.map_map]
  rfl

theorem value_plainLines_map (strings : List String) :
    (plainLines .identity (strings.map (f · false))).value = (plainLines f strings).value := by
  simp only [plainLines, Traced.value_each, List.map_map]
  rfl

theorem value_frameBlocks_map (label : String) (strings : List FrameString) :
    (frameBlocks policy .identity label (strings.map (FrameString.mapString f))).value =
      (frameBlocks policy f label strings).value := by
  have hplain : (strings.map (FrameString.mapString f)).map (·.string) =
      (strings.map (·.string)).map (f · false) := by simp [FrameString.mapString]
  have hrows : (strings.map (FrameString.mapString f)).map
        (fun s => (frameRow .identity s).value) =
      strings.map fun s => (frameRow f s).value := by
    rw [List.map_map]
    rfl
  cases hv : policy.isVerbose with
  | true =>
    simp only [frameBlocks, hv, if_true, Traced.value_bind, Traced.value_each,
      Traced.value_pure, List.length_map, List.isEmpty_map, hrows]
  | false =>
    simp only [frameBlocks, hv, Bool.false_eq_true, if_false, Traced.value_bind,
      Traced.value_pure, List.length_map, hplain, value_plainLines_map]

theorem value_routineBlocks_map (group : UInt64 × List DecodedString) :
    (routineBlocks policy .identity (DecodedString.mapGroup f group)).value =
      (routineBlocks policy f group).value := by
  have hrows : (group.2.map (DecodedString.mapString f)).map
        (fun s => (decodedRow .identity s).value) =
      group.2.map fun s => (decodedRow f s).value := by
    rw [List.map_map]
    rfl
  simp only [routineBlocks, DecodedString.mapGroup, Traced.value_bind, Traced.value_each,
    Traced.value_pure, List.length_map, hrows]

theorem value_decodedBlocks_map (strings : List DecodedString) :
    (decodedBlocks policy .identity (strings.map (DecodedString.mapString f))).value =
      (decodedBlocks policy f strings).value := by
  have hplain : (strings.map (DecodedString.mapString f)).map (·.string) =
      (strings.map (·.string)).map (f · false) := by simp [DecodedString.mapString]
  cases hv : policy.isVerbose with
  | true =>
    simp only [decodedBlocks, hv, if_true, Traced.value_bind, Traced.value_each,
      Traced.value_pure, List.length_map, DecodedString.groupByRoutine_map, List.map_map]
    congr 3
    exact funext fun group => value_routineBlocks_map f policy group
  | false =>
    simp only [decodedBlocks, hv, Bool.false_eq_true, if_false, Traced.value_bind,
      Traced.value_pure, List.length_map, hplain, value_plainLines_map]

/-- Sanitizing while a section is rendered is replacing its strings first. The title is apart:
it shows the file path, which belongs to no record. -/
theorem value_sectionBlocks_mapStrings (doc : Document) {part : Section} (h : part ≠ .title) :
    (Report.sectionBlocks policy .identity (doc.mapStrings f) part).value =
      (Report.sectionBlocks policy f doc part).value := by
  cases part with
  | title => exact absurd rfl h
  | static => exact value_staticBlocks_map f policy _
  | language language => exact value_languageBlocks_map f policy language _ _
  | stack => exact value_frameBlocks_map f policy "STACK" _
  | tight => exact value_frameBlocks_map f policy "TIGHT" _
  | decoded => exact value_decodedBlocks_map f policy _

/-! ## Reports -/

theorem value_blocks_mapStrings (doc : Document) (h : policy.headers = false) :
    (Report.blocks policy .identity (doc.mapStrings f)).value =
      (Report.blocks policy f doc).value := by
  have hparts : ∀ part ∈ Report.sections policy doc,
      (Report.sectionBlocks policy .identity (doc.mapStrings f) part).value =
        (Report.sectionBlocks policy f doc part).value := by
    intro part hpart
    apply value_sectionBlocks_mapStrings
    rintro rfl
    rw [Report.headers_of_title_mem hpart] at h
    exact absurd h (by decide)
  simp only [Report.blocks_eq_intercalate, Traced.value_map, Traced.value_each,
    Report.sections_mapStrings]
  rw [List.map_congr_left hparts]

/-- Without headers, a report is that of the sanitized strings shown as they are: the text of
a record goes through the sanitizer once and has no other way into the report. This holds of
every sanitizer, one that changes its own results included. -/
theorem render_eq_render_mapStrings (doc : Document) (options : Options) (terminal : Bool)
    {mode : ColorMode} (hcolor : ColorMode.ofPreference? options.color = some mode)
    (hheaders : options.disableHeaders = true) :
    ∃ text : String,
      (Report.render options terminal f doc).map Traced.value = .ok text ∧
      (Report.render options terminal .identity (doc.mapStrings f)).map Traced.value =
        .ok text := by
  have hblocks := value_blocks_mapStrings f
    (.make options.verbosity (!options.disableHeaders) mode terminal) doc
    (by simp [Policy.make, hheaders])
  refine ⟨_, by rw [Report.render_of_color hcolor]; rfl, ?_⟩
  rw [Report.render_of_color hcolor]
  simp only [Except.map, Report.draw, Traced.value_bind, Traced.value_pure, hblocks]

/-- A sanitizer that marks what it is given, and so tells a string passed twice and a wrong
flag. -/
def Sanitizer.marking : Sanitizer := fun value asciiOnly =>
  value ++ if asciiOnly then "!" else "?"

theorem render_marking_mapStrings :
    ColorMode.ofPreference? "always" = some .always ∧ ∃ text : String,
      (Report.render ⟨.verbose, true, "always"⟩ false .marking
        { findings := { static := [⟨"a b", 16, .ascii⟩, ⟨"c", 1, .utf16⟩],
                        decoded := [⟨none, .heap, "d", 5, 7⟩] } }).map Traced.value =
          .ok text ∧
      (Report.render ⟨.verbose, true, "always"⟩ false .identity
        { findings := { static := [⟨"a b!", 16, .ascii⟩, ⟨"c?", 1, .utf16⟩],
                        decoded := [⟨none, .heap, "d?", 5, 7⟩] } }).map Traced.value =
          .ok text :=
  have hcolor : ColorMode.ofPreference? "always" = some .always := by decide
  ⟨hcolor, render_eq_render_mapStrings .marking
    { findings := { static := [⟨"a b", 16, .ascii⟩, ⟨"c", 1, .utf16⟩],
                    decoded := [⟨none, .heap, "d", 5, 7⟩] } }
    ⟨.verbose, true, "always"⟩ false hcolor rfl⟩

end StringReport
