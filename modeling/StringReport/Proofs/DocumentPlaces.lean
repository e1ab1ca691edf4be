import StringReport.Proofs.DeclaredDocuments
import StringReport.Proofs.RecordGaps

/-!
# Places in a document

Where the text of a document has its scores and its start date. Each place is three records deep,
and each record may be an object or a list.
-/
namespace StringReport
namespace Document

open Json

/-- A document that lacks its scores. -/
inductive ScoresGap : (Tree → Tree) → Prop
  | mk {outer middle inner : Tree → Tree} :
    GapIn columns "analysis" outer → GapIn Analysis.columns "functions" middle →
      GapIn FunctionCounts.columns "decoding_function_scores" inner →
      ScoresGap fun part => outer (middle (inner part))

/-- A document that lacks its start date. -/
inductive DateGap : (Tree → Tree) → Prop
  | mk {outer middle inner : Tree → Tree} :
    GapIn columns "metadata" outer → GapIn Metadata.columns "runtime" middle →
      GapIn Timings.columns "start_date" inner →
      DateGap fun part => outer (middle (inner part))

theorem ScoresGap.opens {fill : Tree → Tree} (h : ScoresGap fill) :
    Opens Means ScoreTable.Means (fun d => d.analysis.functions.candidates) fill := by
  obtain ⟨houter, hmiddle, hinner⟩ := h
  have hdocument := houter.opens_required declares.distinct
    (List.getElem_mem (by decide : 1 < columns.length))
  have hanalysis := hmiddle.opens_optional Analysis.declares.distinct
    (List.getElem_mem (by decide : 5 < Analysis.columns.length))
  have hfunctions := hinner.opens_optional FunctionCounts.declares.distinct
    (List.getElem_mem (by decide : 5 < FunctionCounts.columns.length))
  exact (hdocument.comp hanalysis).comp hfunctions

theorem DateGap.opens {fill : Tree → Tree} (h : DateGap fill) :
    Opens Means Timestamp.Means (fun d => d.metadata.timings.startDate) fill := by
  obtain ⟨houter, hmiddle, hinner⟩ := h
  have hdocument := houter.opens_required declares.distinct
    (List.getElem_mem (by decide : 0 < columns.length))
  have hmetadata := hmiddle.opens_optional Metadata.declares.distinct
    (List.getElem_mem (by decide : 4 < Metadata.columns.length))
  have htimings := hinner.opens_optional Timings.declares.distinct
    (List.getElem_mem (by decide : 0 < Timings.columns.length))
  exact (hdocument.comp hmetadata).comp htimings

end Document
end StringReport
