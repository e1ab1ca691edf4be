import StringReport.Proofs.JoinedSections
import StringReport.Proofs.ReadableTables
import StringReport.Proofs.RecordCounts

/-!
# Techniques that were not used

A technique that was not used has no section, and its row in the metadata has a word in place of
a number, so the records that a document may still have for it are not shown. Yet they are not
without influence: the numbers of language strings are aligned below those of the static strings
also where the latter are not shown. Where this happens is said exactly, by comparing the
reports on two documents that differ in the records of one unused technique.
-/
namespace StringReport

/-- The techniques by which strings are found. -/
inductive Technique where
  | static
  | language
  | stack
  | tight
  | decoded
  deriving DecidableEq, Repr

namespace Technique

/-- Whether the run that a document tells of has used a technique. -/
def used (doc : Document) : Technique → Bool
  | static => doc.analysis.staticEnabled
  | language => doc.analysis.languageEnabled
  | stack => doc.analysis.stackEnabled
  | tight => doc.analysis.tightEnabled
  | decoded => doc.analysis.decodedEnabled

/-- Findings with the records of a technique replaced by those of others. -/
def exchange (findings other : Findings) : Technique → Findings
  | static => { findings with static := other.static }
  | language =>
    { findings with language := other.language, languageMissed := other.languageMissed }
  | stack => { findings with stack := other.stack }
  | tight => { findings with tight := other.tight }
  | decoded => { findings with decoded := other.decoded }

end Technique

/-- A document with the records of a technique replaced by others. -/
def Document.exchange (doc : Document) (technique : Technique) (other : Findings) : Document :=
  { doc with findings := technique.exchange doc.findings other }

/-! ## Sections -/

namespace Report

/-- The records of a technique that was not used are in no section but the title. -/
theorem sameSource_exchange {doc : Document} {technique : Technique}
    (hunused : technique.used doc = false) (other : Findings) {options : Options} {part : Section}
    (hpart : part.Included options doc) (htitle : part ≠ .title) :
    part.SameSource doc (doc.exchange technique other) := by
  cases part with
  | title => exact absurd rfl htitle
  | static =>
    cases technique with
    | static => exact absurd hpart (Bool.eq_false_iff.1 hunused)
    | _ => rfl
  | language language =>
    cases technique with
    | language => exact absurd hpart.1 (Bool.eq_false_iff.1 hunused)
    | _ => exact ⟨rfl, rfl⟩
  | stack =>
    cases technique with
    | stack => exact absurd hpart (Bool.eq_false_iff.1 hunused)
    | _ => rfl
  | tight =>
    cases technique with
    | tight => exact absurd hpart (Bool.eq_false_iff.1 hunused)
    | _ => rfl
  | decoded =>
    cases technique with
    | decoded => exact absurd hpart (Bool.eq_false_iff.1 hunused)
    | _ => rfl

/-- Of the rows that count strings, that of the language strings alone can tell something of a
technique that was not used. -/
theorem techniqueTexts_exchange {doc : Document} {technique : Technique}
    (hunused : technique.used doc = false) (other : Findings) :
    techniqueTexts (doc.exchange technique other) =
      { techniqueTexts doc with
        language := (techniqueTexts (doc.exchange technique other)).language } := by
  cases technique with
  | language => rfl
  | _ =>
    simp only [Technique.used] at hunused
    simp [techniqueTexts, Document.exchange, Technique.exchange, hunused]

end Report

/-! ## Lines of the metadata -/

/-- A line of two columns tells the text in the second, whatever the widths, if the text does
not end in a space. -/
theorem text_eq_of_metadataLine {left right left' right' : Nat} {label text text' : String}
    (hlabel : '|' ∉ label.toList) (hlast : text.toList.getLast? ≠ some ' ')
    (hlast' : text'.toList.getLast? ≠ some ' ')
    (h : metadataLine left right label text = metadataLine left' right' label text') :
    text = text' := by
  have hlabelled (width : Nat) : '|' ∉ ' ' :: ((fillTo width label).toList ++ [' ']) := by
    simp [fillTo, hlabel]
  have hline (left right : Nat) (text : String) :
      (metadataLine left right label text).toList =
        '|' :: (' ' :: ((fillTo left label).toList ++ [' ']) ++
          '|' :: (' ' :: ((fillTo right text).toList ++ [' ', '|']))) := by
    simp [metadataLine]
  have hchars := congrArg String.toList h
  rw [hline, hline] at hchars
  obtain ⟨-, hcell⟩ :=
    eq_of_append_mark (hlabelled left) (hlabelled left') (List.cons.inj hchars).2
  have hfilled := List.append_cancel_right (List.cons.inj hcell).2
  simp only [fillTo, String.toList_append, toList_spaces] at hfilled
  apply String.toList_inj.1
  rw [← rdropWhile_append_spaces hlast, hfilled, rdropWhile_append_spaces hlast']

/-- Two grids of metadata that are drawn alike, and differ in one row that takes one line, have
the same text in it. -/
theorem text_eq_of_gridLines {canvas : Canvas} {before after after' : List Metadata.Row}
    {label text text' : String} (hrow : Document.InertLine (label, text))
    (hrow' : Document.InertLine (label, text')) (hlabel : '|' ∉ label.toList)
    (hlast : text.toList.getLast? ≠ some ' ') (hlast' : text'.toList.getLast? ≠ some ' ')
    (h : canvas.gridLines (Document.metadataGrid (before ++ (label, text) :: after)) =
      canvas.gridLines (Document.metadataGrid (before ++ (label, text') :: after'))) :
    text = text' := by
  obtain ⟨left, right, hlines⟩ := canvas.exists_gridLines_rows
    (show before ++ (label, text) :: after ≠ [] by simp)
  obtain ⟨left', right', hlines'⟩ := canvas.exists_gridLines_rows
    (show before ++ (label, text') :: after' ≠ [] by simp)
  rw [hlines, hlines'] at h
  simp only [List.flatMap_append, List.flatMap_cons, metadataLines_of_inertLine hrow,
    metadataLines_of_inertLine hrow', List.append_assoc, List.singleton_append, ← List.cons_append]
    at h
  -- the rows above take as many lines in both, whatever the widths
  have hheight : (metadataRule left right :: before.flatMap (metadataLines left right)).length =
      (metadataRule left' right' :: before.flatMap (metadataLines left' right')).length := by
    simp [metadataLines, recordLines, List.length_flatMap]
  exact text_eq_of_metadataLine hlabel hlast hlast'
    (List.cons.inj (List.append_inj h hheight).2).1

/-! ## Aligned numbers -/

theorem aligned_eq_iff {width width' n : Nat} :
    Document.aligned width n = Document.aligned width' n ↔
      max width (toString n).length = max width' (toString n).length := by
  have hchars (width : Nat) : (Document.aligned width n).toList =
      List.replicate (width - (toString n).length) ' ' ++ (toString n).toList := by
    rw [Document.aligned, String.toList_ofList, List.leftpad, String.length_toList]
  rw [← String.toList_inj, hchars, hchars, List.append_left_inj]
  constructor
  · intro h
    have hlength := congrArg List.length h
    rw [List.length_replicate, List.length_replicate] at hlength
    omega
  · intro h
    congr 1
    omega

/-- Two counts of strings and characters are the same if both numbers are. -/
theorem countText_aligned_inj {a a' b b' n m : Nat} :
    Document.countText (Document.aligned a n) (Document.aligned b m) =
        Document.countText (Document.aligned a' n) (Document.aligned b' m) ↔
      Document.aligned a n = Document.aligned a' n ∧
        Document.aligned b m = Document.aligned b' m := by
  constructor
  · intro h
    have hmark (width : Nat) : '(' ∉ (Document.aligned width n).toList ++ [' '] := by
      simp [notMem_aligned (show '('.isDigit = false from rfl) (by decide) width n]
    have htext (strings characters : String) :
        (Document.countText strings characters).toList =
          (strings.toList ++ [' ']) ++ '(' :: (characters.toList ++ " characters)".toList) := by
      simp [Document.countText]
    have hchars := congrArg String.toList h
    rw [htext, htext] at hchars
    obtain ⟨hstrings, hcharacters⟩ := eq_of_append_mark (hmark a) (hmark a') hchars
    exact ⟨String.toList_inj.1 (List.append_cancel_right hstrings),
      String.toList_inj.1 (List.append_cancel_right hcharacters)⟩
  · rintro ⟨hstrings, hcharacters⟩
    rw [hstrings, hcharacters]

/-- Whether the two numbers of some language strings, aligned below those of static strings, take
as much space below those of others. -/
structure AlignedAlike (strings : List LanguageString) (statics others : List StaticString) :
    Prop where
  counts : max (toString others.length).length (toString strings.length).length =
    max (toString statics.length).length (toString strings.length).length
  characters :
    let shown := toString (Document.characterCount (strings.map (·.string)))
    max (toString (Document.characterCount (others.map (·.string)))).length shown.length =
      max (toString (Document.characterCount (statics.map (·.string)))).length shown.length

namespace Report

theorem language_of_counted {doc : Document}
    (h : doc.analysis.languageEnabled = true ∧ doc.metadata.language ≠ "") :
    (techniqueTexts doc).language = Document.countText
      (Document.aligned (toString doc.findings.static.length).length doc.findings.language.length)
      (Document.aligned
        (toString (Document.characterCount (doc.findings.static.map (·.string)))).length
        (Document.characterCount (doc.findings.language.map (·.string)))) :=
  if_pos h

theorem language_of_not_counted {doc : Document}
    (h : ¬(doc.analysis.languageEnabled = true ∧ doc.metadata.language ≠ "")) :
    (techniqueTexts doc).language = Metadata.disabled :=
  if_neg h

/-- The row of the language strings tells of static strings how wide their numbers are. -/
theorem language_exchange_static_eq_iff {doc : Document}
    (h : doc.analysis.languageEnabled = true ∧ doc.metadata.language ≠ "") (other : Findings) :
    (techniqueTexts (doc.exchange .static other)).language = (techniqueTexts doc).language ↔
      AlignedAlike doc.findings.language doc.findings.static other.static := by
  have h' : (doc.exchange .static other).analysis.languageEnabled = true ∧
      (doc.exchange .static other).metadata.language ≠ "" := h
  rw [language_of_counted h, language_of_counted h',
    show (doc.exchange .static other).findings.language = doc.findings.language from rfl,
    countText_aligned_inj, aligned_eq_iff, aligned_eq_iff]
  exact ⟨fun ⟨hcounts, hcharacters⟩ => ⟨hcounts, hcharacters⟩,
    fun ⟨hcounts, hcharacters⟩ => ⟨hcounts, hcharacters⟩⟩

/-- The row of the language strings tells something of a technique that was not used only if it
is that of the static strings, by the widths of its numbers. -/
theorem language_exchange_eq_iff {doc : Document} {technique : Technique}
    (hunused : technique.used doc = false) (other : Findings) :
    (techniqueTexts (doc.exchange technique other)).language = (techniqueTexts doc).language ↔
      (technique = .static → doc.analysis.languageEnabled = true → doc.metadata.language ≠ "" →
        AlignedAlike doc.findings.language doc.findings.static other.static) := by
  by_cases hcounted : doc.analysis.languageEnabled = true ∧ doc.metadata.language ≠ ""
  case neg =>
    have hcounted' : ¬((doc.exchange technique other).analysis.languageEnabled = true ∧
        (doc.exchange technique other).metadata.language ≠ "") := hcounted
    rw [language_of_not_counted hcounted, language_of_not_counted hcounted']
    exact ⟨fun _ _ henabled hlanguage => absurd ⟨henabled, hlanguage⟩ hcounted, fun _ => rfl⟩
  cases technique with
  | static =>
    rw [language_exchange_static_eq_iff hcounted]
    exact ⟨fun h _ _ _ => h, fun h => h rfl hcounted.1 hcounted.2⟩
  | language => exact absurd hcounted.1 (Bool.eq_false_iff.1 hunused)
  | _ => exact ⟨fun _ h => absurd h (by decide), fun _ => rfl⟩

theorem getLast?_language (doc : Document) :
    (techniqueTexts doc).language.toList.getLast? ≠ some ' ' := by
  have hcount (strings characters : String) :
      (Document.countText strings characters).toList.getLast? ≠ some ' ' := by
    have hend : (Document.countText strings characters).toList =
        (strings ++ " (" ++ characters ++ " characters").toList ++ [')'] := by
      simp [Document.countText]
    rw [hend, List.getLast?_concat]
    decide
  simp only [techniqueTexts]
  split
  · exact hcount _ _
  · decide

theorem inertLine_language (doc : Document) :
    Document.InertLine ("  language strings", (techniqueTexts doc).language) := by
  refine doc.inertLine_techniqueRows _ ?_
  rw [techniqueRows_eq]
  simp [TechniqueTexts.rows]

/-! ## Reports -/

theorem intercalate_cons_inj {separator first first' : String} {rest : List String}
    (h : separator.intercalate (first :: rest) = separator.intercalate (first' :: rest)) :
    first = first' := by
  cases rest with
  | nil => simpa using h
  | cons next rest =>
    rw [String.intercalate_cons_cons, String.intercalate_cons_cons, String.append_assoc,
      String.append_assoc, String.append_left_inj] at h
    exact h

/-- The rows of the metadata around that of the language strings; the records of a technique
that was not used do not change those above it. -/
theorem exists_metadataRows_exchange {doc : Document} {technique : Technique}
    (hunused : technique.used doc = false) (other : Findings) (verbose : Bool) (path : String) :
    ∃ before after after',
      doc.metadataRows verbose path =
        before ++ ("  language strings", (techniqueTexts doc).language) :: after ∧
      (doc.exchange technique other).metadataRows verbose path =
        before ++ ("  language strings",
          (techniqueTexts (doc.exchange technique other)).language) :: after' := by
  have hrows (d : Document) : d.metadataRows verbose path =
      (padRight "file path" Metadata.leftWidth, padRight path Metadata.rightWidth) ::
        (if verbose then d.runRows
          else [("identified language", d.metadata.languageSummary)]) ++
        [("extracted strings", ""), (" static strings", (techniqueTexts d).static)] ++
        ("  language strings", (techniqueTexts d).language) ::
          ([(" stack strings", (techniqueTexts d).stack),
            (" tight strings", (techniqueTexts d).tight),
            (" decoded strings", (techniqueTexts d).decoded)] ++
          if verbose then d.functionRows (displayWidth path) else []) := by
    simp [Document.metadataRows, techniqueRows_eq, TechniqueTexts.rows]
  have hstatic : (techniqueTexts (doc.exchange technique other)).static =
      (techniqueTexts doc).static := by rw [techniqueTexts_exchange hunused]
  have hrows' := hrows (doc.exchange technique other)
  rw [hstatic] at hrows'
  exact ⟨_, _, _, hrows doc, hrows'⟩

/-- The title tells the text in the row of the language strings. -/
theorem language_eq_of_sectionText {policy : Policy} {sanitizer : Sanitizer} {doc : Document}
    {technique : Technique} (hunused : technique.used doc = false) (other : Findings)
    (h : sectionText policy sanitizer (doc.exchange technique other) .title =
      sectionText policy sanitizer doc .title) :
    (techniqueTexts (doc.exchange technique other)).language = (techniqueTexts doc).language := by
  let path := sanitizer doc.metadata.filePath false
  have htext (d : Document) : sectionText policy sanitizer d .title =
      (canvas policy).draw [.line (titleLine policy d), .blank] ++
        (canvas policy).draw [.grid (Document.metadataGrid
          (d.metadataRows policy.isVerbose (sanitizer d.metadata.filePath false)))] := by
    rw [sectionText_eq_draw, ← Canvas.draw_append]
    rfl
  rw [htext, htext] at h
  have hlines := (String.append_right_inj _).1 h
  rw [Canvas.draw_grid, Canvas.draw_grid] at hlines
  have hdrawn := endedLines_inj ((canvas policy).newline_notMem_gridLines _)
    ((canvas policy).newline_notMem_gridLines _) hlines
  obtain ⟨before, after, after', hrows, hrows'⟩ :=
    exists_metadataRows_exchange hunused other policy.isVerbose path
  rw [hrows, show (doc.exchange technique other).metadataRows policy.isVerbose
    (sanitizer (doc.exchange technique other).metadata.filePath false) = _ from hrows'] at hdrawn
  exact text_eq_of_gridLines (inertLine_language _) (inertLine_language _) (by decide)
    (getLast?_language _) (getLast?_language _) hdrawn

/-- The records of a technique that was not used decide on nothing in a report but the row of
the language strings, and that is told by the report. -/
theorem value_draw_exchange_eq_iff {doc : Document} {technique : Technique}
    (hunused : technique.used doc = false) (other : Findings) (options : Options)
    (mode : ColorMode) (terminal : Bool) (sanitizer : Sanitizer) :
    let policy := Policy.make options.verbosity (!options.disableHeaders) mode terminal
    (draw policy sanitizer (doc.exchange technique other)).value =
        (draw policy sanitizer doc).value ↔
      (options.disableHeaders = false →
        (techniqueTexts (doc.exchange technique other)).language =
          (techniqueTexts doc).language) := by
  intro policy
  have hrest {part : Section} (hpart : part ∈ sections policy doc) (htitle : part ≠ .title) :
      sectionText policy sanitizer (doc.exchange technique other) part =
        sectionText policy sanitizer doc part := by
    have hsame := sameSource_exchange hunused other (mem_sections_iff.1 hpart) htitle
    rw [sectionText_eq_draw, sectionText_eq_draw, value_sectionBlocks_congr hsame]
  rw [value_draw_eq_intercalate, value_draw_eq_intercalate,
    show sections policy (doc.exchange technique other) = sections policy doc from rfl]
  constructor
  · intro h hheaders
    have hsections : sections policy doc =
        .title :: sections { policy with headers := false } doc := by
      simp [sections, policy, Policy.make, hheaders]
    have hothers : (sections { policy with headers := false } doc).map
          (sectionText policy sanitizer (doc.exchange technique other)) =
        (sections { policy with headers := false } doc).map
          (sectionText policy sanitizer doc) := by
      refine List.map_congr_left fun part hpart => hrest ?_ ?_
      · rw [hsections]
        exact List.mem_cons_of_mem _ hpart
      · rintro rfl
        exact absurd (headers_of_title_mem hpart) Bool.false_ne_true
    rw [hsections, List.map_cons, List.map_cons, hothers] at h
    exact language_eq_of_sectionText hunused other (intercalate_cons_inj h)
  · intro h
    refine congrArg _ (List.map_congr_left fun part hpart => ?_)
    by_cases htitle : part = .title
    · subst htitle
      have hrows : doc.techniqueRows = (doc.exchange technique other).techniqueRows := by
        rw [techniqueRows_eq, techniqueRows_eq, techniqueTexts_exchange hunused,
          h (mem_sections_iff.1 hpart)]
      have hsame : Section.title.SameSource doc (doc.exchange technique other) :=
        ⟨rfl, rfl, hrows⟩
      rw [sectionText_eq_draw, sectionText_eq_draw, value_sectionBlocks_congr hsame]
    · exact hrest hpart htitle

/-- A report is the same with other records of a technique that was not used, unless these are
static strings, headers are shown, and the numbers of language strings, which stand below those
of the static strings, take another width. -/
theorem render_exchange_eq_iff {doc : Document} {technique : Technique}
    (hunused : technique.used doc = false) (other : Findings) {options : Options}
    {mode : ColorMode} (hcolor : ColorMode.ofPreference? options.color = some mode)
    (terminal : Bool) (sanitizer : Sanitizer) :
    ∃ first second : String,
      (render options terminal sanitizer doc).map Traced.value = .ok first ∧
      (render options terminal sanitizer (doc.exchange technique other)).map Traced.value =
        .ok second ∧
      (second = first ↔
        (technique = .static → options.disableHeaders = false →
          doc.analysis.languageEnabled = true → doc.metadata.language ≠ "" →
          AlignedAlike doc.findings.language doc.findings.static other.static)) := by
  have hvalue := value_draw_exchange_eq_iff hunused other options mode terminal sanitizer
  refine ⟨_, _, by rw [render_of_color hcolor]; rfl, by rw [render_of_color hcolor]; rfl, ?_⟩
  refine hvalue.trans ?_
  rw [language_exchange_eq_iff hunused other]
  exact ⟨fun h htechnique hheaders => h hheaders htechnique,
    fun h hheaders htechnique => h htechnique hheaders⟩

/-- A document of a run that looked for strings of a language runtime only, and has a static
string left all the same: it is longer than the string that was found. -/
def leftoverSample : Document where
  metadata := { filePath := "a.bin", version := "1.0.0", minLength := 0, language := "go" }
  analysis :=
    { staticEnabled := false, stackEnabled := false, tightEnabled := false,
      decodedEnabled := false }
  findings := { static := [⟨"kernel32.dll", 64, .ascii⟩], language := [⟨"hello", 9⟩] }

theorem render_exchange_leftoverSample :
    Technique.static.used leftoverSample = false ∧
    ColorMode.ofPreference? "never" = some .never ∧
    ∃ first second : String,
      (render ⟨.verbose, false, "never"⟩ false .terminal leftoverSample).map Traced.value =
        .ok first ∧
      (render ⟨.verbose, false, "never"⟩ false .terminal
        (leftoverSample.exchange .static { static := [⟨"0123456789", 1, .utf16⟩] })).map
          Traced.value = .ok second ∧
      second = first := by
  let options : Options := ⟨.verbose, false, "never"⟩
  have hunused : Technique.static.used leftoverSample = false := rfl
  have hcolor : ColorMode.ofPreference? options.color = some .never := by decide
  obtain ⟨first, second, hfirst, hsecond, heq⟩ := render_exchange_eq_iff hunused
    { static := [⟨"0123456789", 1, .utf16⟩] } hcolor false .terminal
  exact ⟨hunused, hcolor, first, second, hfirst, hsecond,
    heq.2 fun _ _ _ _ => ⟨by decide, by decide⟩⟩

/-- Without the string that is left, the count of the language strings takes one column less. -/
theorem render_exchange_leftoverSample_ne :
    Technique.static.used leftoverSample = false ∧
    ∃ first second : String,
      (render ⟨.brief, false, "never"⟩ false .terminal leftoverSample).map Traced.value =
        .ok first ∧
      (render ⟨.brief, false, "never"⟩ false .terminal
        (leftoverSample.exchange .static {})).map Traced.value = .ok second ∧
      second ≠ first := by
  let options : Options := ⟨.brief, false, "never"⟩
  have hunused : Technique.static.used leftoverSample = false := rfl
  have hcolor : ColorMode.ofPreference? options.color = some .never := by decide
  have hne : ¬AlignedAlike leftoverSample.findings.language leftoverSample.findings.static [] :=
    fun h => absurd h.characters (by decide)
  refine ⟨hunused, _, _, by rw [render_of_color hcolor]; rfl, by rw [render_of_color hcolor]; rfl,
    fun heq => hne ?_⟩
  have hlanguage := (value_draw_exchange_eq_iff hunused {} options .never false .terminal).1 heq rfl
  exact (language_exchange_eq_iff hunused {}).1 hlanguage rfl rfl (by decide)

end Report
end StringReport
