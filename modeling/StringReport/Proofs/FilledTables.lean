import StringReport.Report.Basic

/-!
# Every row fits its table

The rows that a report puts into its tables have a cell for each column, whatever the document
holds, so no row ever ends the work. Filled row by row, a table is the one that has all of its
rows from the start; the sections are those that are listed without a word about fitting, and
rendering fails for the color preference only.
-/
namespace StringReport

/-! ## Work that no row ends -/

namespace Filling

variable {α β : Type}

/-- Work that cannot fail. -/
def sure (work : Traced α) : Filling α := ExceptT.lift work

@[simp] theorem liftM_eq_sure (work : Traced α) : (liftM work : Filling α) = sure work := rfl

@[simp] theorem pure_eq_sure (a : α) : (pure a : Filling α) = sure (pure a) := rfl

/-- Work that cannot fail may be gone on with by what cannot fail on its value. -/
theorem sure_bind_of {work : Traced α} {next : α → Filling β} {later : Traced β}
    (h : next work.value = sure later) : sure work >>= next = sure (work >>= fun _ => later) := by
  have hrun : (sure work >>= next).run = work >>= fun a => (next a).run := by
    refine Traced.ext rfl ?_
    show (Except.ok <$> work).notes ++ (next work.value).run.notes =
      work.notes ++ (next work.value).run.notes
    rw [Traced.notes_map]
  refine hrun.trans (Traced.ext ?_ ?_)
  · rw [Traced.value_bind, h]
    rfl
  · show work.notes ++ (next work.value).run.notes = (Except.ok <$> (work >>= _)).notes
    rw [h, Traced.notes_map, Traced.notes_bind]
    exact congrArg (work.notes ++ ·) (Traced.notes_map _ _)

@[simp] theorem sure_bind (work : Traced α) (next : α → Traced β) :
    (sure work >>= fun a => sure (next a)) = sure (work >>= next) :=
  sure_bind_of rfl

@[simp] theorem outcome_sure (work : Traced α) : (sure work).outcome = .ok work := by
  have hnotes : (sure work).run.notes = work.notes := Traced.notes_map _ _
  rw [outcome, hnotes]
  rfl

/-- Work on one element after the other cannot fail if the work on each cannot. -/
theorem mapM_sure (as : List α) (work : α → Traced β) :
    as.mapM (fun a => sure (work a)) = sure (Traced.each as work) := by
  induction as with
  | nil => rfl
  | cons a as ih =>
    simp only [List.mapM_cons, ih, pure_eq_sure, sure_bind]
    refine congrArg sure (Traced.ext rfl ?_)
    simp

/-- A loop whose steps cannot fail is a loop of the traced work. -/
theorem foldlM_sure (step : β → α → Traced β) (as : List α) (b : β) :
    as.foldlM (fun b a => sure (step b a)) b = sure (as.foldlM step b) := by
  induction as generalizing b with
  | nil => rfl
  | cons a as ih =>
    simp only [List.foldlM_cons, ih]
    exact sure_bind _ _

end Filling

open Filling (sure)

namespace Grid

variable {n : Nat}

theorem pushCells_toList (grid : Grid n) (row : Vector StyledText n) :
    grid.pushCells row.toList = .ok (grid.push row) := by
  have hrow : row? n row.toList = .ok row := by
    rw [row?, dif_pos row.length_toList]
    exact congrArg Except.ok (Vector.toArray_inj.1 Array.toArray_toList)
  rw [pushCells, hrow]
  rfl

theorem fillRow_toList (grid : Grid n) (row : Vector StyledText n) :
    grid.fillRow row.toList = sure (pure (grid.push row)) := by
  rw [fillRow, pushCells_toList]
  rfl

/-- A row ends the work just if it has not a cell for each column. -/
theorem outcome_fillRow_eq_error {grid : Grid n} {cells : List StyledText} {fault : RenderFault} :
    (grid.fillRow cells).outcome = .error fault ↔
      cells.length ≠ n ∧ fault = .badRow ⟨n, cells.length⟩ := by
  by_cases h : cells.length = n
  · have hrow : cells = (⟨cells.toArray, by simpa using h⟩ : Vector StyledText n).toList := by
      simp
    rw [hrow, fillRow_toList, Filling.outcome_sure]
    simp [h]
  · have hpush : grid.pushCells cells = .error ⟨n, cells.length⟩ := by
      rw [pushCells, row?, dif_neg h]
      rfl
    rw [fillRow, hpush]
    simp only [ne_eq, h, not_false_eq_true, true_and]
    constructor
    · intro hfault
      exact (Except.error.inj hfault).symm
    · rintro rfl
      rfl

/-- A grid with more rows. -/
def append (grid : Grid n) (rows : List (Vector StyledText n)) : Grid n :=
  { grid with rows := grid.rows ++ rows }

/-- A grid is filled to the last record if the cells of each make a row. -/
theorem fill_eq_sure {α : Type} {cells : α → Traced (List StyledText)}
    (row : α → Traced (Vector StyledText n)) (hcells : ∀ a, cells a = Vector.toList <$> row a)
    (grid : Grid n) (records : List α) :
    grid.fill records cells = sure (grid.append <$> Traced.each records row) := by
  induction records generalizing grid with
  | nil =>
    have hgrid : grid.append [] = grid := by
      rw [append, List.append_nil]
    show sure (pure grid) = sure (pure (grid.append []))
    rw [hgrid]
  | cons record records ih =>
    have hpush (rows : List (Vector StyledText n)) :
        (grid.push (row record).value).append rows =
          grid.append ((row record).value :: rows) := by
      simp [append, push]
    have hrow : grid.fillRow (cells record).value = sure (pure (grid.push (row record).value)) := by
      rw [hcells, Traced.value_map, fillRow_toList]
    rw [fill, List.foldlM_cons, Filling.liftM_eq_sure, Filling.sure_bind_of hrow]
    refine (Filling.sure_bind_of (ih _)).trans (congrArg sure (Traced.ext ?_ ?_))
    · exact hpush _
    · simp [hcells]

end Grid

/-! ## Sections -/

section Sections

variable (policy : Policy) (sanitizer : Sanitizer)

theorem fillMetadata_eq_sure (doc : Document) :
    doc.fillMetadata policy sanitizer = sure (doc.metadataBlocks policy sanitizer) := by
  have hgrid (rows : List Metadata.Row) :
      ((Document.metadataGrid []).fill rows fun row => return Document.metadataCells row) =
        sure (pure (Document.metadataGrid rows)) := by
    have hfill := Grid.fill_eq_sure (fun row => pure (Document.metadataRow row))
      (fun _ => rfl) (Document.metadataGrid []) rows
    exact hfill.trans (congrArg sure (Traced.ext rfl (by simp)))
  rw [Document.fillMetadata, Document.metadataBlocks]
  simp only [hgrid, Filling.liftM_eq_sure, Filling.pure_eq_sure, Filling.sure_bind, pure_bind]
  simp [Grid.size, Document.metadataGrid]

theorem fill_frameGrid (strings : List FrameString) :
    ((frameGrid policy []).fill strings fun s => do
        let value ← sanitizer.display s.string false
        return frameCells s value) =
      sure (frameGrid policy <$> Traced.each strings (frameRow sanitizer)) :=
  Grid.fill_eq_sure (frameRow sanitizer) (fun _ => rfl) (frameGrid policy []) strings

theorem fillFrames_eq_sure (label : String) (strings : List FrameString) :
    fillFrames policy sanitizer label strings =
      sure (frameBlocks policy sanitizer label strings) := by
  rw [fillFrames, frameBlocks, fill_frameGrid]
  cases policy.isVerbose with
  | false => simp
  | true =>
    cases strings with
    | nil => rfl
    | cons s strings => simp

theorem fill_decodedGrid (strings : List DecodedString) :
    ((decodedGrid policy []).fill strings fun s => do
        let value ← sanitizer.display s.string false
        return decodedCells s value) =
      sure (decodedGrid policy <$> Traced.each strings (decodedRow sanitizer)) :=
  Grid.fill_eq_sure (decodedRow sanitizer) (fun _ => rfl) (decodedGrid policy []) strings

theorem fillRoutine_eq_sure (group : UInt64 × List DecodedString) :
    fillRoutine policy sanitizer group = sure (routineBlocks policy sanitizer group) := by
  rw [fillRoutine, fill_decodedGrid]
  simp [routineBlocks]

theorem fillDecoded_eq_sure (strings : List DecodedString) :
    fillDecoded policy sanitizer strings = sure (decodedBlocks policy sanitizer strings) := by
  have hgroups : fillRoutine policy sanitizer =
      fun group => sure (routineBlocks policy sanitizer group) :=
    funext (fillRoutine_eq_sure policy sanitizer)
  simp only [fillDecoded, decodedBlocks, hgroups, Filling.mapM_sure]
  cases policy.isVerbose with
  | false => simp
  | true => simp

end Sections

/-! ## Reports -/

theorem ColorMode.exists_ofPreference?_iff {preference : String} :
    (∃ mode, ofPreference? preference = some mode) ↔ preference ∈ ["always", "auto", "never"] := by
  unfold ofPreference?
  by_cases halways : preference = "always"
  · simp [halways]
  by_cases hauto : preference = "auto"
  · simp [hauto]
  by_cases hnever : preference = "never"
  · simp [hnever]
  · simp [halways, hauto, hnever]

namespace Report

section Sections

variable (policy : Policy) (sanitizer : Sanitizer)

theorem fillSection_eq_sure (doc : Document) (part : Section) :
    fillSection policy sanitizer doc part = sure (sectionBlocks policy sanitizer doc part) := by
  cases part with
  | title =>
    rw [fillSection, fillMetadata_eq_sure]
    simp [sectionBlocks]
  | static => rfl
  | language language => rfl
  | stack => exact fillFrames_eq_sure policy sanitizer "STACK" doc.findings.stack
  | tight => exact fillFrames_eq_sure policy sanitizer "TIGHT" doc.findings.tight
  | decoded => exact fillDecoded_eq_sure policy sanitizer doc.findings.decoded

theorem assemble_eq_sure (doc : Document) :
    assemble policy sanitizer doc = sure (draw policy sanitizer doc) := by
  have hstep (draft : Draft) (part : Section) :
      (do return draft.join (← fillSection policy sanitizer doc part)) =
        sure (do return draft.join (← sectionBlocks policy sanitizer doc part)) := by
    rw [fillSection_eq_sure]
    exact Filling.sure_bind_of rfl
  simp only [assemble, hstep, Filling.foldlM_sure]
  simp [draw, blocks]

end Sections

/-- With a valid color preference there is always a report. -/
theorem render_of_color {options : Options} {mode : ColorMode}
    (h : ColorMode.ofPreference? options.color = some mode) (terminal : Bool)
    (sanitizer : Sanitizer) (doc : Document) :
    render options terminal sanitizer doc =
      .ok (draw (.make options.verbosity (!options.disableHeaders) mode terminal)
        sanitizer doc) := by
  rw [render, Policy.ofOptions_of_color h]
  show (assemble _ sanitizer doc).outcome = _
  rw [assemble_eq_sure, Filling.outcome_sure]

/-- Rendering fails just if the color preference is none of the known ones, and then for that
alone: no row of any section ends the work, whatever the document holds. -/
theorem render_eq_error_iff_color (options : Options) (terminal : Bool) (sanitizer : Sanitizer)
    (doc : Document) :
    (∀ fault, render options terminal sanitizer doc = .error fault ↔
      options.color ∉ ["always", "auto", "never"] ∧ fault = .invalidColor options.color) ∧
    ((∃ report, render options terminal sanitizer doc = .ok report) ↔
      options.color ∈ ["always", "auto", "never"]) ∧
    ∀ policy part, ∃ blocks, (fillSection policy sanitizer doc part).outcome = .ok blocks := by
  have hsections (policy : Policy) (part : Section) :
      ∃ blocks, (fillSection policy sanitizer doc part).outcome = .ok blocks := by
    rw [fillSection_eq_sure, Filling.outcome_sure]
    exact ⟨_, rfl⟩
  by_cases hcolor : options.color ∈ ["always", "auto", "never"]
  · obtain ⟨mode, hmode⟩ := ColorMode.exists_ofPreference?_iff.2 hcolor
    refine ⟨fun fault => ?_, ?_, hsections⟩
    · simp [render_of_color hmode, hcolor]
    · simp [render_of_color hmode, hcolor]
  · have hnone : ColorMode.ofPreference? options.color = none := by
      cases hmode : ColorMode.ofPreference? options.color with
      | none => rfl
      | some mode => exact absurd (ColorMode.exists_ofPreference?_iff.1 ⟨mode, hmode⟩) hcolor
    have hrender :
        render options terminal sanitizer doc = .error (.invalidColor options.color) := by
      rw [render, Policy.ofOptions, hnone]
      rfl
    refine ⟨fun fault => ?_, ?_, hsections⟩
    · simp [hrender, hcolor, eq_comm]
    · simp [hrender, hcolor]

end Report
end StringReport
