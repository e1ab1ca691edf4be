import StringReport.Proofs.TextLines

/-!
# The texts of the metadata

What the rows of the metadata show is written by the report itself, apart from the file path,
which is sanitized, and the version and the language, which are shown as the document has
them. The counts of the techniques never take more than a line.
-/
namespace StringReport

namespace Document

/-- Label and text of a row are inert but for line feeds. -/
def InertRow (row : Metadata.Row) : Prop := InertLines row.1.toList ∧ InertLines row.2.toList

/-- Label and text of a row are inert and stand on one line. -/
def InertLine (row : Metadata.Row) : Prop := Inert row.1.toList ∧ Inert row.2.toList

theorem inertRow_of_lines {label text : String} (hl : InertLines label.toList)
    (ht : InertLines text.toList) : InertRow (label, text) := ⟨hl, ht⟩

theorem inertRow {label text : String} (hl : Inert label.toList) (ht : InertLines text.toList) :
    InertRow (label, text) := inertRow_of_lines hl.lines ht

theorem inertLine {label text : String} (hl : Inert label.toList) (ht : Inert text.toList) :
    InertLine (label, text) := ⟨hl, ht⟩

theorem InertLine.row {row : Metadata.Row} (h : InertLine row) : InertRow row :=
  ⟨h.1.lines, h.2.lines⟩

theorem inert_countText {strings characters : String} (hs : Inert strings.toList)
    (hc : Inert characters.toList) : Inert (countText strings characters).toList := by
  have hopen : Inert " (".toList := by decide
  have hclose : Inert " characters)".toList := by decide
  simp only [countText, String.toList_append, inert_append, hs, hc, hopen, hclose, and_self]

/-- The rows of the techniques show nothing of the strings but how many they are. -/
theorem inertLine_techniqueRows (doc : Document) : ∀ row ∈ doc.techniqueRows, InertLine row := by
  have hdisabled : Inert Metadata.disabled.toList := by decide
  have hcount (enabled : Bool) (n : Nat) :
      Inert (if enabled then toString n else Metadata.disabled).toList := by
    cases enabled with
    | true => exact inert_toString n
    | false => exact hdisabled
  intro row hrow
  simp only [techniqueRows, List.mem_cons, List.not_mem_nil, or_false] at hrow
  rcases hrow with rfl | rfl | rfl | rfl | rfl
  · refine inertLine (by decide) ?_
    split
    · exact inert_countText (inert_toString _) (inert_toString _)
    · exact hdisabled
  · refine inertLine (by decide) ?_
    split
    · exact inert_countText (inert_aligned _ _) (inert_aligned _ _)
    · exact hdisabled
  · exact inertLine (by decide) (hcount _ _)
  · exact inertLine (by decide) (hcount _ _)
  · exact inertLine (by decide) (hcount _ _)

theorem inert_candidateText (candidate : UInt64 × Score) :
    Inert (candidateText candidate).toList := by
  have hopen : Inert " (".toList := by decide
  have hreferences : Inert ", xrefs_to: ".toList := by decide
  have hclose : Inert ")".toList := by decide
  simp only [candidateText, String.toList_append, inert_append, inert_address, inert_fixed,
    inert_toString, hopen, hreferences, hclose, and_self]

theorem inert_candidates (doc : Document) :
    Inert (", ".intercalate (doc.analysis.functions.candidates.entries.map
      candidateText)).toList := by
  intro c hc
  rw [String.toList_intercalate] at hc
  rcases mem_intercalate hc with hc | ⟨part, hpart, hc⟩
  · have hseparator : Inert ", ".toList := by decide
    exact hseparator c hc
  · simp only [List.map_map, List.mem_map, Function.comp] at hpart
    obtain ⟨candidate, -, rfl⟩ := hpart
    exact inert_candidateText candidate c hc

/-- The rows about functions show nothing of the document but numbers. -/
theorem inertRow_functionRows (doc : Document) (pathWidth : Nat) :
    ∀ row ∈ doc.functionRows pathWidth, InertRow row := by
  have hnumber (n : Nat) : InertLines (toString n).toList := (inert_toString n).lines
  have hrow (enabled : Bool) (label : String) (hlabel : Inert label.toList) (n : UInt64) :
      ∀ row ∈ if enabled then [(label, toString n.toNat)] else [], InertRow row := by
    intro row hmem
    cases enabled with
    | true =>
      rw [List.mem_singleton.1 hmem]
      exact inertRow hlabel (hnumber _)
    | false => cases hmem
  intro row hmem
  unfold functionRows at hmem
  split at hmem
  · rw [List.mem_singleton.1 hmem]
    exact inertRow (by decide) (by decide)
  · simp only [List.mem_append, List.mem_cons, List.not_mem_nil, or_false] at hmem
    rcases hmem with (((hmem | hmem) | hmem) | hmem) | hmem
    · rcases hmem with rfl | rfl | rfl
      · exact inertRow (by decide) (by decide)
      · exact inertRow (by decide) (hnumber _)
      · exact inertRow (by decide) (hnumber _)
    · exact hrow _ _ (by decide) _ row hmem
    · exact hrow _ _ (by decide) _ row hmem
    · exact hrow _ _ (by decide) _ row hmem
    · split at hmem
      · cases hmem
      · rw [List.mem_singleton.1 hmem]
        have hlabel : InertLines ("  identified decoding functions\n" ++
            "  (offset, score, and number of xrefs to)").toList := by
          decide
        exact inertRow_of_lines hlabel (doc.inert_candidates.wrap _)

/-- The rows about the run show the version and the language as they are. -/
theorem runRows_cases {doc : Document} {row : Metadata.Row} (h : row ∈ doc.runRows) :
    InertRow row ∨ row = ("version", doc.metadata.version) ∨
      row = ("identified language", doc.metadata.languageSummary) := by
  simp only [runRows, List.mem_cons, List.not_mem_nil, or_false] at h
  rcases h with rfl | rfl | rfl | rfl | rfl | rfl
  · exact Or.inl (inertRow (by decide) (inert_display _).lines)
  · exact Or.inl (inertRow (by decide) (inert_clock _).lines)
  · exact Or.inr (Or.inl rfl)
  · exact Or.inr (Or.inr rfl)
  · exact Or.inl (inertRow (by decide) (inert_address _).lines)
  · exact Or.inl (inertRow (by decide) (inert_toString _).lines)

theorem inert_padRight {text : String} (h : Inert text.toList) (width : Nat) :
    Inert (padRight text width).toList := by
  rw [padRight, String.toList_append, inert_append]
  exact ⟨h, inert_spaces _⟩

/-- If the path is inert, all rows are but those of the version and the language. -/
theorem metadataRows_cases {doc : Document} {path : String} (hpath : Inert path.toList)
    {verbose : Bool} {row : Metadata.Row} (h : row ∈ doc.metadataRows verbose path) :
    InertRow row ∨ row = ("version", doc.metadata.version) ∨
      row = ("identified language", doc.metadata.languageSummary) := by
  simp only [metadataRows, List.cons_append, List.mem_cons, List.mem_append] at h
  rcases h with rfl | (h | rfl | h) | h
  · exact Or.inl (inertRow (inert_padRight (by decide) _) (inert_padRight hpath _).lines)
  · split at h
    · exact runRows_cases h
    · exact Or.inr (Or.inr (List.mem_singleton.1 h))
  · exact Or.inl (inertRow (by decide) (by decide))
  · exact Or.inl (doc.inertLine_techniqueRows row h).row
  · split at h
    · exact Or.inl (doc.inertRow_functionRows _ row h)
    · cases h

/-- If the path, the version and the language are inert, all rows are. -/
theorem inertRow_metadataRows {doc : Document} {path : String} (hpath : Inert path.toList)
    (hversion : InertLines doc.metadata.version.toList)
    (hlanguage : InertLines doc.metadata.languageSummary.toList) (verbose : Bool) :
    ∀ row ∈ doc.metadataRows verbose path, InertRow row := by
  intro row hrow
  rcases metadataRows_cases hpath hrow with hrow | rfl | rfl
  · exact hrow
  · exact inertRow (by decide) hversion
  · exact inertRow (by decide) hlanguage

end Document
end StringReport
