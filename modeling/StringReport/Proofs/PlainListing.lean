import StringReport.Proofs.CountedSections
import StringReport.Proofs.JoinedSections
import StringReport.Proofs.SanitizerLog

/-!
# Plain listing

A brief report without headers shows strings and nothing else: each on a line of its own as the
sanitizer made it, those of a section below each other, and an empty line between sections as
well as between the two encodings of static strings. So cutting the report at its line feeds
gives the strings back.
-/
namespace StringReport

/-- What plain listing shows of a document, section by section, given the strings of its
language runtime in the order in which they are listed. -/
def Document.listings (doc : Document) (ordered : List LanguageString) : List (List String) :=
  (if doc.analysis.staticEnabled then
    [(doc.findings.static.filter (·.encoding = .ascii)).map (StaticString.shown .ascii) ++
      "" :: (doc.findings.static.filter (·.encoding = .utf16)).map (StaticString.shown .utf16)]
  else []) ++
  (if doc.analysis.languageEnabled ∧
      (doc.metadata.language = "go" ∨ doc.metadata.language = "rust") then
    [ordered.map LanguageString.shown]
  else []) ++
  (if doc.analysis.stackEnabled then [doc.findings.stack.map FrameString.shown] else []) ++
  (if doc.analysis.tightEnabled then [doc.findings.tight.map FrameString.shown] else []) ++
  if doc.analysis.decodedEnabled then [doc.findings.decoded.map DecodedString.shown] else []

/-- Every line of a listing is a sanitized string, or the empty one between two encodings. -/
theorem Document.newline_notMem_listings {doc : Document} {ordered : List LanguageString}
    {texts : List String} (htexts : texts ∈ doc.listings ordered) {line : String}
    (hline : line ∈ texts) : '\n' ∉ line.toList := by
  have hshown (value : String) (asciiOnly : Bool) :
      '\n' ∉ (Sanitizer.terminal value asciiOnly).toList :=
    (inert_terminal value asciiOnly).newline_notMem
  simp only [listings, List.mem_append, List.mem_ite_nil_right, List.mem_singleton] at htexts
  rcases htexts with (((⟨-, rfl⟩ | ⟨-, rfl⟩) | ⟨-, rfl⟩) | ⟨-, rfl⟩) | ⟨-, rfl⟩
  · simp only [List.mem_append, List.mem_cons, List.mem_map] at hline
    rcases hline with ⟨s, -, rfl⟩ | rfl | ⟨s, -, rfl⟩
    · exact hshown s.string _
    · exact List.not_mem_nil
    · exact hshown s.string _
  all_goals
    obtain ⟨s, -, rfl⟩ := List.mem_map.1 hline
    exact hshown s.string false

namespace Report

/-! ## Sections without headers -/

section Sections

theorem lines_plainLines (canvas : Canvas) (strings : List String) :
    (plainLines .terminal strings).value.flatMap canvas.blockLines =
      strings.map fun s => Sanitizer.terminal s false := by
  have hvalue : (plainLines .terminal strings).value =
      strings.map fun s => Block.line (.plain (Sanitizer.terminal s false)) := rfl
  rw [hvalue, flatMap_line]
  exact List.map_congr_left fun s _ => canvas.paint_single_plain _

variable {policy : Policy} (hverbose : policy.isVerbose = false) (hheaders : policy.headers = false)

include hverbose

theorem lines_offsetLines {α : Type} (items : List α) (offset : α → UInt64) (width : Nat)
    (value : α → String) :
    (items.map fun item => Block.line (offsetLine policy (offset item) width (value item))).flatMap
      (canvas policy).blockLines = items.map value := by
  rw [flatMap_line]
  refine List.map_congr_left fun item _ => ?_
  rw [offsetLine, hverbose]
  exact (canvas policy).paint_single_plain (value item)

include hheaders

omit hverbose in
theorem lines_sectionHeading (label : String) (n : Nat) :
    (canvas policy).blockLines (sectionHeading policy label n) = [] := by
  simp [sectionHeading, Canvas.blockLines, canvas, hheaders]

theorem lines_encodingBlocks_of_brief (width : Nat) (encoding : Encoding)
    (strings : List StaticString) :
    (encodingBlocks policy .terminal width encoding strings).value.flatMap
      (canvas policy).blockLines = strings.map (StaticString.shown encoding) := by
  have hlabel : (canvas policy).blockLines
      (.subHeading (encodingLabel policy encoding) strings.length) = [] := by
    simp [Canvas.blockLines, canvas, hheaders]
  have hlines := lines_offsetLines hverbose strings (·.offset) width (StaticString.shown encoding)
  simp only [encodingBlocks, Traced.value_bind, Traced.value_each, Traced.value_pure,
    List.flatMap_cons, hlabel, List.nil_append]
  exact hlines

theorem lines_staticBlocks (strings : List StaticString) :
    (staticBlocks policy .terminal strings).value.flatMap (canvas policy).blockLines =
      (strings.filter (·.encoding = .ascii)).map (StaticString.shown .ascii) ++
        "" :: (strings.filter (·.encoding = .utf16)).map (StaticString.shown .utf16) := by
  have hblank : (canvas policy).blockLines .blank = [""] := rfl
  simp only [staticBlocks, Traced.value_bind, Traced.value_pure, List.cons_append,
    List.flatMap_cons, List.flatMap_append, lines_sectionHeading hheaders,
    lines_encodingBlocks_of_brief hverbose hheaders, hblank, List.nil_append,
    StaticString.ofEncoding]

theorem lines_languageBlocks (language : Language) (found missed : List LanguageString) :
    (languageBlocks policy .terminal language found missed).value.flatMap
        (canvas policy).blockLines =
      (LanguageString.sortByOffset (found ++ missed)).map LanguageString.shown := by
  let strings := LanguageString.sortByOffset (found ++ missed)
  let width := Hex.width ((strings.getLast?.map (·.offset)).getD 0)
  have hlines := lines_offsetLines hverbose strings (·.offset) width LanguageString.shown
  simp only [languageBlocks, Traced.value_bind, Traced.value_each, Traced.value_pure,
    List.flatMap_cons, lines_sectionHeading hheaders, List.nil_append]
  exact hlines

theorem lines_frameBlocks (label : String) (strings : List FrameString) :
    (frameBlocks policy .terminal label strings).value.flatMap (canvas policy).blockLines =
      strings.map FrameString.shown := by
  simp only [frameBlocks, hverbose, Bool.false_eq_true, if_false, Traced.value_bind,
    Traced.value_pure, List.flatMap_cons, lines_sectionHeading hheaders, List.nil_append,
    lines_plainLines, List.map_map]
  rfl

theorem lines_decodedBlocks (strings : List DecodedString) :
    (decodedBlocks policy .terminal strings).value.flatMap (canvas policy).blockLines =
      strings.map DecodedString.shown := by
  simp only [decodedBlocks, hverbose, Bool.false_eq_true, if_false, Traced.value_bind,
    Traced.value_pure, List.flatMap_cons, lines_sectionHeading hheaders, List.nil_append,
    lines_plainLines, List.map_map]
  rfl

theorem map_sections_of_brief (doc : Document) :
    (sections policy doc).map (fun part =>
        (sectionBlocks policy .terminal doc part).value.flatMap (canvas policy).blockLines) =
      doc.listings
        (LanguageString.sortByOffset (doc.findings.language ++ doc.findings.languageMissed)) := by
  have hone {p : Bool} {part : Section} {lines : Section → List String} :
      (if p then [part] else []).map lines = if p then [lines part] else [] := by
    cases p <;> rfl
  have hlanguage (texts : List String) : doc.language?.toList.map (fun _ => texts) =
      if doc.analysis.languageEnabled ∧
        (doc.metadata.language = "go" ∨ doc.metadata.language = "rust") then [texts] else [] := by
    rw [← doc.calls_languageSection, List.map_eq_flatMap]
  simp only [sections, hheaders, Bool.false_eq_true, if_false, List.nil_append, List.map_append,
    hone, Option.toList_map, List.map_map, Function.comp_def, sectionBlocks,
    lines_staticBlocks hverbose hheaders, lines_languageBlocks hverbose hheaders,
    lines_frameBlocks hverbose hheaders, lines_decodedBlocks hverbose hheaders,
    hlanguage, Document.listings]

end Sections

/-- A brief report without headers is the listing of its strings, section by section: nothing is
added to a string but the line feed at its end, and cut at its line feeds the report is these
strings again. -/
theorem exists_listings_render (doc : Document) :
    ∃ ordered, InOrder LanguageString.offset
        (doc.findings.language ++ doc.findings.languageMissed) ordered ∧
      ∀ (color : String) (mode : ColorMode) (terminal : Bool),
        ColorMode.ofPreference? color = some mode →
        ∃ text, (render ⟨.brief, true, color⟩ terminal .terminal doc).map Traced.value = .ok text ∧
          text = "\n".intercalate ((doc.listings ordered).map endedLines) ∧
          linesOf text = [""].intercalate (doc.listings ordered) ++ [""] := by
  refine ⟨_, LanguageString.inOrder_sortByOffset _, fun color mode terminal hcolor => ?_⟩
  let policy := Policy.make .brief false mode terminal
  let listings := doc.listings
    (LanguageString.sortByOffset (doc.findings.language ++ doc.findings.languageMissed))
  have htext : (draw policy .terminal doc).value = "\n".intercalate (listings.map endedLines) := by
    have hsections := map_sections_of_brief (show policy.isVerbose = false from rfl) rfl doc
    rw [value_draw_eq_intercalate, show listings = _ from hsections.symm, List.map_map]
    exact congrArg _ (List.map_congr_left fun part _ => sectionText_eq_draw doc part)
  refine ⟨_, by rw [render_of_color hcolor]; rfl, htext, ?_⟩
  rw [htext, ← endedLines_intercalate]
  refine linesOf_endedLines fun line hline => ?_
  rcases mem_intercalate hline with hline | ⟨texts, htexts, hline⟩
  · rw [List.mem_singleton.1 hline]
    exact List.not_mem_nil
  · exact Document.newline_notMem_listings htexts hline

/-- Strings that are empty, end in spaces or hold a line feed, in every section but that of stack
strings, of which there are none; the tight strings are not reported. -/
def plainSample : Document where
  metadata := { language := "rust" }
  analysis := { tightEnabled := false }
  findings := {
    tight := [{ function := 1, string := "hidden", programCounter := 1, frameOffset := 1 }]
    decoded := [{ region := .heap, string := "  d", decodedAt := 1, routine := 7 }]
    static := [⟨"wide ", 1, .utf16⟩, ⟨"a\n", 2, .ascii⟩, ⟨"", 3, .ascii⟩]
    language := [⟨"later", 9⟩]
    languageMissed := [⟨"sooner", 4⟩] }

theorem render_plainSample :
    ColorMode.ofPreference? "always" = some .always ∧
      (render ⟨.brief, true, "always"⟩ true .terminal plainSample).map Traced.value =
        .ok "a\\n\n\n\nwide \n\nsooner\nlater\n\n\n  d\n" := by
  have hcolor : ColorMode.ofPreference? "always" = some .always := by decide
  obtain ⟨ordered, hordered, hrender⟩ := exists_listings_render plainSample
  obtain ⟨text, htext, hlistings, -⟩ := hrender "always" .always true hcolor
  have hsorted : InOrder LanguageString.offset
      (plainSample.findings.language ++ plainSample.findings.languageMissed)
      [⟨"sooner", 4⟩, ⟨"later", 9⟩] := by
    refine ⟨List.Perm.swap _ _ _, by decide, fun offset => ?_⟩
    by_cases h : (4 : UInt64) = offset
    · subst h
      decide
    · simp [plainSample, List.filter_cons, h]
  rw [hordered.unique hsorted] at hlistings
  refine ⟨hcolor, htext.trans (congrArg _ (hlistings.trans ?_))⟩
  decide

end Report
end StringReport
