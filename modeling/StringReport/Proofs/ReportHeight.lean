import StringReport.Proofs.BlockHeights
import StringReport.Proofs.MetadataTexts
import StringReport.Proofs.RecordStrings

/-!
# The height of a report

A sanitizer that writes no line feed leaves no trace of its strings in the height of a
section: the section is as high as it is with empty strings. The title shows of the strings
only how many characters they have, on one line each. So a report is as high as that of the
same document with its strings blanked, and documents that differ in their strings only have
reports of one height.
-/
namespace StringReport

/-- A sanitizer that writes no line feed. -/
def Sanitizer.OnOneLine (f : Sanitizer) : Prop :=
  ∀ value asciiOnly, lineFeeds (f value asciiOnly) = 0

/-- The sanitizer that shows nothing. -/
def Sanitizer.blanking : Sanitizer := fun _ _ => ""

theorem Sanitizer.onOneLine_terminal : terminal.OnOneLine := fun value asciiOnly =>
  (inert_terminal value asciiOnly).lineFeeds

theorem Sanitizer.onOneLine_blanking : blanking.OnOneLine := fun _ _ => rfl

namespace Grid

variable {n : Nat}

/-- A row of texts without line feeds takes one line. -/
theorem rowHeight_eq_one {row : Vector StyledText n} (hn : 0 < n)
    (h : ∀ cell ∈ row.toList, lineFeeds cell.toPlain = 0) : rowHeight row = 1 := by
  have hones : (row.toList.map StyledText.toPlain).map (fun text => lineFeeds text + 1) =
      List.replicate n 1 := by
    rw [List.map_map, List.eq_replicate_iff]
    refine ⟨by simp, fun height hheight => ?_⟩
    obtain ⟨cell, hcell, rfl⟩ := List.mem_map.1 hheight
    simp only [Function.comp, h cell hcell]
  rw [rowHeight, tallest, hones, List.max?_replicate_of_pos hn]
  rfl

/-- Grids with the same frame and rows of the same heights are of one height. -/
theorem height_congr {grid grid' : Grid n} (hcolumns : grid.columns = grid'.columns)
    (hheader : grid.showHeader = grid'.showHeader) (hborder : grid.border = grid'.border)
    (hrows : grid.rows.map rowHeight = grid'.rows.map rowHeight) : grid.height = grid'.height := by
  have hempty : grid.isEmpty = grid'.isEmpty := by
    have h := congrArg List.isEmpty hrows
    rwa [List.isEmpty_map, List.isEmpty_map] at h
  rw [height, height, hcolumns, hheader, hborder, hrows, hempty]

end Grid

/-! ## Sections -/

section

variable {f g : Sanitizer} (hf : f.OnOneLine) (hg : g.OnOneLine) (policy : Policy)

/-- The heights of the blocks of a part of a report. -/
def heights (policy : Policy) (part : Traced (List Block)) : List Nat :=
  part.value.map (Block.height policy.headers)

theorem height_offsetLine (offset : UInt64) (width : Nat) {value : String}
    (h : lineFeeds value = 0) :
    Block.height policy.headers (.line (offsetLine policy offset width value)) = 1 := by
  have hoffset : lineFeeds (Hex.offset offset width) = 0 := (inert_offset _ _).lineFeeds
  have hspace : lineFeeds " " = 0 := by decide
  unfold offsetLine
  split <;> simp [Block.height, h, hoffset, hspace]

include hf in
theorem rowHeight_frameRow (s : FrameString) : Grid.rowHeight (frameRow f s).value = 1 := by
  have hupper (n : UInt64) : lineFeeds (Hex.upper n) = 0 := (inert_upper n).lineFeeds
  refine Grid.rowHeight_eq_one (by decide) ?_
  simp [frameRow, frameCells, Sanitizer.display, hupper, hf s.string false]

include hf in
theorem rowHeight_decodedRow (s : DecodedString) : Grid.rowHeight (decodedRow f s).value = 1 := by
  have haddress (n : UInt64) : lineFeeds (Hex.address n) = 0 := (inert_address n).lineFeeds
  have hlocation : lineFeeds s.location = 0 := (inert_location s).lineFeeds
  refine Grid.rowHeight_eq_one (by decide) ?_
  simp [decodedRow, decodedCells, Sanitizer.display, haddress, hlocation, hf s.string false]

include hf hg

theorem height_frameGrid (strings : List FrameString) :
    (frameGrid policy (strings.map fun s => (frameRow f s).value)).height =
      (frameGrid policy (strings.map fun s => (frameRow g s).value)).height := by
  refine Grid.height_congr rfl rfl rfl ?_
  simp only [frameGrid, List.map_map]
  refine List.map_congr_left fun s _ => ?_
  simp only [Function.comp, rowHeight_frameRow hf, rowHeight_frameRow hg]

theorem height_decodedGrid (strings : List DecodedString) :
    (decodedGrid policy (strings.map fun s => (decodedRow f s).value)).height =
      (decodedGrid policy (strings.map fun s => (decodedRow g s).value)).height := by
  refine Grid.height_congr rfl rfl rfl ?_
  simp only [decodedGrid, List.map_map]
  refine List.map_congr_left fun s _ => ?_
  simp only [Function.comp, rowHeight_decodedRow hf, rowHeight_decodedRow hg]

theorem heights_encodingBlocks (width : Nat) (encoding : Encoding)
    (strings : List StaticString) :
    heights policy (encodingBlocks policy f width encoding strings) =
      heights policy (encodingBlocks policy g width encoding strings) := by
  simp only [heights, encodingBlocks, Traced.value_bind, Traced.value_each, Traced.value_pure,
    List.map_cons, List.map_map]
  refine congrArg _ (List.map_congr_left fun s _ => ?_)
  have hshown (h : Sanitizer) (hh : h.OnOneLine) := height_offsetLine policy s.offset width
    (hh s.string (encoding = .ascii))
  simp only [Function.comp, Sanitizer.display, hshown f hf, hshown g hg]

theorem heights_staticBlocks (strings : List StaticString) :
    heights policy (staticBlocks policy f strings) =
      heights policy (staticBlocks policy g strings) := by
  have hencoding := heights_encodingBlocks hf hg policy
  simp only [heights] at hencoding
  simp only [heights, staticBlocks, Traced.value_bind, Traced.value_pure, List.map_cons,
    List.map_append, hencoding]

theorem heights_languageBlocks (language : Language) (found missed : List LanguageString) :
    heights policy (languageBlocks policy f language found missed) =
      heights policy (languageBlocks policy g language found missed) := by
  simp only [heights, languageBlocks, Traced.value_bind, Traced.value_each, Traced.value_pure,
    List.map_cons, List.map_map]
  refine congrArg _ (List.map_congr_left fun s _ => ?_)
  have hshown (h : Sanitizer) (hh : h.OnOneLine) (width : Nat) :=
    height_offsetLine policy s.offset width (hh s.string false)
  simp only [Function.comp, Sanitizer.display, hshown f hf, hshown g hg]

theorem heights_plainLines (strings : List String) :
    heights policy (plainLines f strings) = heights policy (plainLines g strings) := by
  simp only [heights, plainLines, Traced.value_each, List.map_map]
  refine List.map_congr_left fun s _ => ?_
  simp [Sanitizer.display, Block.height, hf s false, hg s false]

theorem heights_frameBlocks (label : String) (strings : List FrameString) :
    heights policy (frameBlocks policy f label strings) =
      heights policy (frameBlocks policy g label strings) := by
  cases hv : policy.isVerbose with
  | true =>
    simp only [heights, frameBlocks, hv, if_true, Traced.value_bind, Traced.value_each,
      Traced.value_pure, List.map_cons]
    split
    · rfl
    · simp only [List.map_cons, Block.height, height_frameGrid hf hg policy strings]
  | false =>
    have hlines := heights_plainLines hf hg policy (strings.map (·.string))
    simp only [heights] at hlines
    simp only [heights, frameBlocks, hv, Bool.false_eq_true, if_false, Traced.value_bind,
      Traced.value_pure, List.map_cons, hlines]

theorem heights_routineBlocks (group : UInt64 × List DecodedString) :
    heights policy (routineBlocks policy f group) =
      heights policy (routineBlocks policy g group) := by
  simp only [heights, routineBlocks, Traced.value_bind, Traced.value_each, Traced.value_pure,
    List.map_cons, Block.height, height_decodedGrid hf hg policy group.2]

theorem heights_decodedBlocks (strings : List DecodedString) :
    heights policy (decodedBlocks policy f strings) =
      heights policy (decodedBlocks policy g strings) := by
  cases hv : policy.isVerbose with
  | true =>
    have hroutine := heights_routineBlocks hf hg policy
    simp only [heights] at hroutine
    simp only [heights, decodedBlocks, hv, if_true, Traced.value_bind, Traced.value_each,
      Traced.value_pure, List.map_cons, List.map_flatten, List.map_map]
    refine congrArg _ (congrArg _ (List.map_congr_left fun group _ => ?_))
    exact hroutine group
  | false =>
    have hlines := heights_plainLines hf hg policy (strings.map (·.string))
    simp only [heights] at hlines
    simp only [heights, decodedBlocks, hv, Bool.false_eq_true, if_false, Traced.value_bind,
      Traced.value_pure, List.map_cons, hlines]

/-- A section is as high with one sanitizer as with another, if neither writes line feeds. -/
theorem heights_sectionBlocks (doc : Document) {part : Section} (h : part ≠ .title) :
    heights policy (Report.sectionBlocks policy f doc part) =
      heights policy (Report.sectionBlocks policy g doc part) := by
  cases part with
  | title => exact absurd rfl h
  | static => exact heights_staticBlocks hf hg policy _
  | language language => exact heights_languageBlocks hf hg policy language _ _
  | stack => exact heights_frameBlocks hf hg policy "STACK" _
  | tight => exact heights_frameBlocks hf hg policy "TIGHT" _
  | decoded => exact heights_decodedBlocks hf hg policy _

end

/-! ## The title -/

section

variable (f : Sanitizer) (policy : Policy)

theorem rowHeights_techniqueRows (doc : Document) :
    (doc.techniqueRows.map fun row => Grid.rowHeight (Document.metadataRow row)) =
      List.replicate 5 1 := by
  rw [List.eq_replicate_iff]
  refine ⟨rfl, fun height hheight => ?_⟩
  obtain ⟨row, hrow, rfl⟩ := List.mem_map.1 hheight
  obtain ⟨hlabel, htext⟩ := doc.inertLine_techniqueRows row hrow
  refine Grid.rowHeight_eq_one (by decide) ?_
  simp [Document.metadataRow, Document.metadataCells, hlabel.lineFeeds, htext.lineFeeds]

/-- Of the strings the metadata shows counts only, so they leave its height alone. -/
theorem height_metadataGrid (doc : Document) (verbose : Bool) (path : String) :
    (Document.metadataGrid ((doc.mapStrings f).metadataRows verbose path)).height =
      (Document.metadataGrid (doc.metadataRows verbose path)).height := by
  refine Grid.height_congr rfl rfl rfl ?_
  simp only [Document.metadataGrid, Document.metadataRows, List.cons_append, List.map_cons,
    List.map_append, List.map_map, Function.comp_def, rowHeights_techniqueRows]
  rfl

theorem heights_title (doc : Document) :
    heights policy (Report.sectionBlocks policy .terminal (doc.mapStrings f) .title) =
      heights policy (Report.sectionBlocks policy .terminal doc .title) := by
  simp only [heights, Report.sectionBlocks, Document.metadataBlocks, Traced.value_bind,
    Traced.value_pure, List.map_cons, Block.height, height_metadataGrid]
  rfl

end

/-! ## Reports -/

/-- A section is as high as that of the document with its strings blanked. -/
theorem heights_sectionBlocks_blanking (policy : Policy) {d e : Document}
    (h : d.mapStrings .blanking = e.mapStrings .blanking) (part : Section) :
    heights policy (Report.sectionBlocks policy .terminal d part) =
      heights policy (Report.sectionBlocks policy .terminal e part) := by
  by_cases htitle : part = .title
  · subst htitle
    rw [← heights_title .blanking policy d, h, heights_title]
  · have hblank (doc : Document) :
        heights policy (Report.sectionBlocks policy .terminal doc part) =
          heights policy
            (Report.sectionBlocks policy .identity (doc.mapStrings .blanking) part) := by
      rw [heights_sectionBlocks Sanitizer.onOneLine_terminal Sanitizer.onOneLine_blanking policy
        doc htitle]
      simp only [heights, value_sectionBlocks_mapStrings .blanking policy doc htitle]
    rw [hblank d, h, ← hblank e]

theorem heights_blocks_blanking (policy : Policy) {d e : Document}
    (h : d.mapStrings .blanking = e.mapStrings .blanking) :
    heights policy (Report.blocks policy .terminal d) =
      heights policy (Report.blocks policy .terminal e) := by
  have hsections : Report.sections policy d = Report.sections policy e := by
    rw [← Report.sections_mapStrings .blanking policy d, h, Report.sections_mapStrings]
  simp only [heights, Report.blocks_eq_intercalate, Traced.value_map, Traced.value_each,
    map_intercalate, List.map_map, hsections]
  refine congrArg _ (List.map_congr_left fun part _ => ?_)
  exact heights_sectionBlocks_blanking policy h part

/-- Documents that differ in the strings of their records only have reports with as many line
feeds: no string adds, removes or splits a line. -/
theorem lineFeeds_render_of_mapStrings_eq {d e : Document}
    (h : d.mapStrings .blanking = e.mapStrings .blanking) (options : Options) (terminal : Bool)
    {mode : ColorMode} (hcolor : ColorMode.ofPreference? options.color = some mode) :
    ∃ first second : String,
      (Report.render options terminal .terminal d).map Traced.value = .ok first ∧
      (Report.render options terminal .terminal e).map Traced.value = .ok second ∧
      lineFeeds first = lineFeeds second := by
  have hheights := heights_blocks_blanking
    (.make options.verbosity (!options.disableHeaders) mode terminal) h
  refine ⟨_, _, by rw [Report.render_of_color hcolor]; rfl,
    by rw [Report.render_of_color hcolor]; rfl, ?_⟩
  simp only [Report.draw, Traced.value_bind, Traced.value_pure, Canvas.lineFeeds_draw]
  exact congrArg List.sum hheights

/-- A string made of line feeds and an escape takes as many lines as a harmless one. -/
theorem lineFeeds_render_hostile :
    (({ findings := { stack := [⟨1, "a", 2, 0, 0, 0, 3⟩] } } : Document).mapStrings .blanking =
      ({ findings := { stack := [⟨1, "\n\n\x1b[2J", 2, 0, 0, 0, 3⟩] } } : Document).mapStrings
        .blanking ∧ ColorMode.ofPreference? "auto" = some .auto) ∧
    ∃ first second : String,
      (Report.render { verbosity := .verbose } true .terminal
        { findings := { stack := [⟨1, "a", 2, 0, 0, 0, 3⟩] } }).map Traced.value = .ok first ∧
      (Report.render { verbosity := .verbose } true .terminal
        { findings := { stack := [⟨1, "\n\n\x1b[2J", 2, 0, 0, 0, 3⟩] } }).map Traced.value =
          .ok second ∧
      lineFeeds first = lineFeeds second :=
  have hcolor : ColorMode.ofPreference? "auto" = some .auto := by decide
  ⟨⟨rfl, hcolor⟩, lineFeeds_render_of_mapStrings_eq (by rfl) { verbosity := .verbose } true hcolor⟩

end StringReport
