import StringReport.Proofs.FilledTables
import StringReport.Proofs.TextLines

/-!
# A report as the join of its sections

A console only ever grows. What a block adds to it is decided by the block and by the way in
which the console draws, not by the text that is there already. So a section has a text of its
own, the one that it leaves on an empty console, and a report is the texts of its sections with
one line feed between each of them and the next, whether they leave anything or not.
-/
namespace StringReport

/-! ## Lines as text -/

/-- Some lines as text, each ended by a line feed. -/
def endedLines (lines : List String) : String :=
  String.join (lines.map fun line => line.push '\n')

theorem endedLines_append (first second : List String) :
    endedLines (first ++ second) = endedLines first ++ endedLines second := by
  rw [endedLines, List.map_append, String.join_append]
  rfl

/-- An empty line between parts is a line feed between their texts. -/
theorem endedLines_intercalate (parts : List (List String)) :
    endedLines ([""].intercalate parts) = "\n".intercalate (parts.map endedLines) := by
  induction parts with
  | nil => rfl
  | cons part parts ih =>
    cases parts with
    | nil => simp
    | cons next parts =>
      have hempty : endedLines [""] = "\n" := rfl
      simp only [List.map_cons] at ih ⊢
      rw [List.intercalate_cons_cons, String.intercalate_cons_cons, endedLines_append,
        endedLines_append, ih, hempty]

/-- Lines are found again where they end. -/
theorem linesOf_endedLines {lines : List String} (h : ∀ line ∈ lines, '\n' ∉ line.toList) :
    linesOf (endedLines lines) = lines ++ [""] := by
  induction lines with
  | nil => rfl
  | cons line lines ih =>
    obtain ⟨hline, hlines⟩ := List.forall_mem_cons.1 h
    have htext : (endedLines (line :: lines)).toList =
        line.toList ++ '\n' :: (endedLines lines).toList := by
      simp [endedLines, String.toList_join]
    rw [linesOf, htext, partsOn_append hline, List.map_cons, ← linesOf, ih hlines,
      String.ofList_toList]
    rfl

theorem endedLines_inj {lines lines' : List String} (h : ∀ line ∈ lines, '\n' ∉ line.toList)
    (h' : ∀ line ∈ lines', '\n' ∉ line.toList) (heq : endedLines lines = endedLines lines') :
    lines = lines' := by
  have hlines := linesOf_endedLines h
  rw [heq, linesOf_endedLines h'] at hlines
  exact (List.append_cancel_right hlines).symm

/-! ## Consoles -/

namespace Canvas

variable (canvas : Canvas)

theorem draw_eq_endedLines (blocks : List Block) :
    canvas.draw blocks = endedLines (blocks.flatMap canvas.blockLines) := rfl

theorem draw_grid {n : Nat} (grid : Grid n) :
    canvas.draw [.grid grid] = endedLines (canvas.gridLines grid) := by
  rw [draw_eq_endedLines, List.flatMap_singleton]
  rfl

theorem draw_append (first second : List Block) :
    canvas.draw (first ++ second) = canvas.draw first ++ canvas.draw second := by
  rw [draw_eq_endedLines, List.flatMap_append, endedLines_append]
  rfl

theorem draw_intercalate (parts : List (List Block)) :
    canvas.draw ([Block.blank].intercalate parts) = "\n".intercalate (parts.map canvas.draw) := by
  have hblank : [Block.blank].flatMap canvas.blockLines = [""] := rfl
  rw [draw_eq_endedLines, flatMap_intercalate, hblank, endedLines_intercalate, List.map_map]
  rfl

end Canvas

/-- A console with the text that was written to it. -/
structure Console where
  canvas : Canvas
  text : String := ""

namespace Console

/-- Write a line below what is there. -/
def write (console : Console) (line : String) : Console :=
  { console with text := console.text ++ line.push '\n' }

/-- Draw a block, line by line. -/
def put (console : Console) (block : Block) : Console :=
  (console.canvas.blockLines block).foldl write console

/-- Draw blocks one after the other. -/
def putAll (console : Console) (blocks : List Block) : Console := blocks.foldl put console

theorem foldl_write (console : Console) (lines : List String) :
    lines.foldl write console = { console with text := console.text ++ endedLines lines } := by
  induction lines generalizing console with
  | nil => simp [endedLines]
  | cons line lines ih =>
    have hline : endedLines (line :: lines) = line.push '\n' ++ endedLines lines :=
      String.join_cons
    rw [List.foldl_cons, ih, hline, ← String.append_assoc]
    rfl

theorem put_eq (console : Console) (block : Block) :
    console.put block =
      { console with text := console.text ++ console.canvas.draw [block] } := by
  rw [put, foldl_write, Canvas.draw_eq_endedLines, List.flatMap_singleton]

/-- Blocks leave the same text on a console, whatever is there already. -/
theorem putAll_eq (console : Console) (blocks : List Block) :
    console.putAll blocks =
      { console with text := console.text ++ console.canvas.draw blocks } := by
  induction blocks generalizing console with
  | nil => simp [putAll, Canvas.draw]
  | cons block blocks ih =>
    have hdraw : console.canvas.draw (block :: blocks) =
        console.canvas.draw [block] ++ console.canvas.draw blocks :=
      console.canvas.draw_append [block] blocks
    rw [putAll, List.foldl_cons, ← putAll, ih, put_eq, String.append_assoc, ← hdraw]

end Console

/-! ## Sections -/

/-- The tag of a language that has a section. -/
def Language.tag : Language → String
  | go => "go"
  | rust => "rust"

theorem Language.ofTag?_eq_some_iff {tag : String} {language : Language} :
    ofTag? tag = some language ↔ tag = language.tag := by
  unfold ofTag?
  by_cases hgo : tag = "go"
  · cases language <;> simp [hgo, Language.tag]
  · by_cases hrust : tag = "rust"
    · cases language <;> simp [hrust, Language.tag]
    · cases language <;> simp [hgo, hrust, Language.tag]

namespace Section

/-- The place of a section among the others. -/
def place : Section → Nat
  | title => 0
  | static => 1
  | language _ => 2
  | stack => 3
  | tight => 4
  | decoded => 5

/-- When a report has a section: the title if headers are shown, every other one if its
technique was used, for a language runtime only if the language is one of the two. -/
def Included (options : Options) (doc : Document) : Section → Prop
  | title => options.disableHeaders = false
  | static => doc.analysis.staticEnabled = true
  | language l => doc.analysis.languageEnabled = true ∧ doc.metadata.language = l.tag
  | stack => doc.analysis.stackEnabled = true
  | tight => doc.analysis.tightEnabled = true
  | decoded => doc.analysis.decodedEnabled = true

/-- Whether two documents are the same in what a section tells of: the title about the run and
the counts of strings, every other one about the records of its technique. -/
def SameSource (d e : Document) : Section → Prop
  | title => d.metadata = e.metadata ∧ d.analysis = e.analysis ∧ d.techniqueRows = e.techniqueRows
  | static => d.findings.static = e.findings.static
  | language _ => d.findings.language = e.findings.language ∧
      d.findings.languageMissed = e.findings.languageMissed
  | stack => d.findings.stack = e.findings.stack
  | tight => d.findings.tight = e.findings.tight
  | decoded => d.findings.decoded = e.findings.decoded

end Section

namespace Report

/-- What a section leaves on an empty console. -/
def sectionText (policy : Policy) (sanitizer : Sanitizer) (doc : Document) (part : Section) :
    String :=
  (Console.putAll { canvas := canvas policy } (sectionBlocks policy sanitizer doc part).value).text

variable {policy : Policy} {sanitizer : Sanitizer}

theorem sectionText_eq_draw (doc : Document) (part : Section) :
    sectionText policy sanitizer doc part =
      (canvas policy).draw (sectionBlocks policy sanitizer doc part).value := by
  rw [sectionText, Console.putAll_eq]
  exact String.empty_append

theorem value_draw_eq_intercalate (policy : Policy) (sanitizer : Sanitizer) (doc : Document) :
    (draw policy sanitizer doc).value =
      "\n".intercalate ((sections policy doc).map (sectionText policy sanitizer doc)) := by
  simp only [draw, blocks_eq_intercalate, Traced.value_bind, Traced.value_map, Traced.value_each,
    Traced.value_pure, Canvas.draw_intercalate, List.map_map]
  exact congrArg _ (List.map_congr_left fun part _ => (sectionText_eq_draw doc part).symm)

theorem pairwise_sections (policy : Policy) (doc : Document) :
    (sections policy doc).Pairwise fun a b => a.place < b.place := by
  have hone (p : Bool) (part : Section) : (if p then [part] else []).Sublist [part] := by
    cases p <;> simp
  have hall : (sections policy doc).Sublist ([.title] ++ [.static] ++
      (doc.language?.map Section.language).toList ++ [.stack] ++ [.tight] ++ [.decoded]) :=
    (((((hone _ _).append (hone _ _)).append (.refl _)).append (hone _ _)).append
      (hone _ _)).append (hone _ _)
  refine List.Pairwise.sublist hall ?_
  cases doc.language? <;> simp [Section.place]

theorem language?_eq_some_iff {doc : Document} {language : Language} :
    doc.language? = some language ↔
      doc.analysis.languageEnabled = true ∧ doc.metadata.language = language.tag := by
  rw [Document.language?, ← Language.ofTag?_eq_some_iff]
  split
  · next h => simp [h]
  · next h => simp [h]

theorem mem_sections_iff {options : Options} {mode : ColorMode} {terminal : Bool}
    {doc : Document} {part : Section} :
    part ∈ sections (.make options.verbosity (!options.disableHeaders) mode terminal) doc ↔
      part.Included options doc := by
  have hone {p : Bool} {a b : Section} : a ∈ (if p then [b] else []) ↔ p = true ∧ a = b := by
    cases p <;> simp
  simp only [sections, List.mem_append, hone, Option.mem_toList,
    Option.map_eq_some_iff, language?_eq_some_iff]
  cases part <;> simp [Section.Included, Policy.make]

/-- A section depends on nothing but its source. -/
theorem value_sectionBlocks_congr {d e : Document} {part : Section}
    (h : part.SameSource d e) :
    (sectionBlocks policy sanitizer d part).value =
      (sectionBlocks policy sanitizer e part).value := by
  cases part with
  | title =>
    obtain ⟨hmetadata, hanalysis, hrows⟩ := h
    have hmetadataRows (path : String) : d.metadataRows policy.isVerbose path =
        e.metadataRows policy.isVerbose path := by
      simp only [Document.metadataRows, Document.runRows, Document.functionRows, hmetadata,
        hanalysis, hrows]
    simp only [sectionBlocks, Document.metadataBlocks, Traced.value_bind, Traced.value_pure,
      titleLine, hmetadata, hmetadataRows]
  | static => exact congrArg (fun records => (staticBlocks policy sanitizer records).value) h
  | language language =>
    simp only [sectionBlocks, h.1, h.2]
  | stack => exact congrArg (fun records => (frameBlocks policy sanitizer "STACK" records).value) h
  | tight => exact congrArg (fun records => (frameBlocks policy sanitizer "TIGHT" records).value) h
  | decoded => exact congrArg (fun records => (decodedBlocks policy sanitizer records).value) h

/-! ## Reports -/

/-- A text that is the join of some sections of a report: they stand in order, and are just
those which the report has; each leaves its text on a console whatever was drawn there before,
and is the same for every other document with the same source for it. -/
structure JoinOf (options : Options) (policy : Policy) (sanitizer : Sanitizer) (doc : Document)
    (parts : List Section) (text : String) : Prop where
  ordered : parts.Pairwise fun a b => a.place < b.place
  included : ∀ part, part ∈ parts ↔ part.Included options doc
  joined : text = "\n".intercalate (parts.map (sectionText policy sanitizer doc))
  appended : ∀ part, ∀ before : String,
    (Console.putAll ⟨canvas policy, before⟩ (sectionBlocks policy sanitizer doc part).value).text =
      before ++ sectionText policy sanitizer doc part
  independent : ∀ part, ∀ other : Document, part.SameSource doc other →
    sectionText policy sanitizer other part = sectionText policy sanitizer doc part

/-- A report is the texts of its sections in order, with one line feed between each of them and
the next. -/
theorem exists_joinOf_render {options : Options} {mode : ColorMode}
    (hcolor : ColorMode.ofPreference? options.color = some mode) (terminal : Bool)
    (sanitizer : Sanitizer) (doc : Document) :
    ∃ (parts : List Section) (text : String),
      (render options terminal sanitizer doc).map Traced.value = .ok text ∧
      JoinOf options (.make options.verbosity (!options.disableHeaders) mode terminal) sanitizer
        doc parts text := by
  refine ⟨_, _, by rw [render_of_color hcolor]; rfl, pairwise_sections _ doc,
    fun part => mem_sections_iff, value_draw_eq_intercalate _ sanitizer doc, ?_, ?_⟩
  · intro part before
    rw [Console.putAll_eq, sectionText_eq_draw]
  · intro part other hsame
    rw [sectionText_eq_draw, sectionText_eq_draw, value_sectionBlocks_congr hsame]

/-- Strings that were decoded and none that were built on a frame: of the sections without
headers, two leave nothing. -/
def sparseSample : Document where
  metadata := { language := "go" }
  analysis := { staticEnabled := false, tightEnabled := false }
  findings := { decoded := [{ region := .heap, string := "d", decodedAt := 1, routine := 7 }] }

theorem exists_joinOf_render_sparseSample :
    ColorMode.ofPreference? "auto" = some .auto ∧
    ∃ (parts : List Section) (text : String),
      (render ⟨.verbose, true, "auto"⟩ true .terminal sparseSample).map Traced.value = .ok text ∧
      JoinOf ⟨.verbose, true, "auto"⟩ (.make .verbose false .auto true) .terminal sparseSample
        parts text := by
  let options : Options := ⟨.verbose, true, "auto"⟩
  have hcolor : ColorMode.ofPreference? options.color = some .auto := by decide
  exact ⟨hcolor, exists_joinOf_render hcolor true .terminal sparseSample⟩

end Report
end StringReport
