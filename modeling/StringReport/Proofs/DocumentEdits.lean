import Mathlib
import StringReport.Proofs.AcceptedDocuments
import StringReport.Proofs.RecordEdits
import StringReport.Proofs.RespacedTexts

/-!
# Documents of other versions

A document written by a newer program has members that this one does not know, one written by an
older program lacks members that have come since, and both may have their members in another
order and be laid out in another way. Such a text is accepted if the document was accepted
without the change, and it holds the same document.

An edit may be made in any record of the document, however deep. What it does to the record at
hand is proved once for all records; the records themselves only say which of their columns hold
records.
-/
namespace StringReport

open Json

/-! ## Edits of each record -/

def Timings.Edit : Tree → Tree → Prop := RecordEdit columns []

def Metadata.Edit : Tree → Tree → Prop := RecordEdit columns [("runtime", Timings.Edit)]

def Score.Edit : Tree → Tree → Prop := RecordEdit columns []

/-- An edit of the table of scores: its keys are addresses and stay as they are. -/
def ScoreTable.Edit : Tree → Tree → Prop := EntryEdit Score.Edit

def FunctionCounts.Edit : Tree → Tree → Prop :=
  RecordEdit columns [("decoding_function_scores", ScoreTable.Edit)]

def Analysis.Edit : Tree → Tree → Prop := RecordEdit columns [("functions", FunctionCounts.Edit)]

def StaticString.Edit : Tree → Tree → Prop := RecordEdit columns []

def LanguageString.Edit : Tree → Tree → Prop := RecordEdit columns []

def FrameString.Edit : Tree → Tree → Prop := RecordEdit columns []

def DecodedString.Edit : Tree → Tree → Prop := RecordEdit columns []

def Findings.Edit : Tree → Tree → Prop := RecordEdit columns [
  ("stack_strings", ItemEdit FrameString.Edit),
  ("tight_strings", ItemEdit FrameString.Edit),
  ("decoded_strings", ItemEdit DecodedString.Edit),
  ("static_strings", ItemEdit StaticString.Edit),
  ("language_strings", ItemEdit LanguageString.Edit),
  ("language_strings_missed", ItemEdit LanguageString.Edit)]

/-- An edit somewhere in a document. -/
def Document.Edit : Tree → Tree → Prop := RecordEdit columns [
  ("metadata", Metadata.Edit),
  ("analysis", Analysis.Edit),
  ("strings", Findings.Edit)]

/-! ## No record notices its edits -/

theorem Timings.keeps : Keeps Timings.Means Timings.Edit := declares.keeps nofun

theorem Metadata.keeps : Keeps Metadata.Means Metadata.Edit := by
  apply declares.keeps
  simp only [List.forall_mem_singleton]
  exact ⟨columns[4], List.getElem_mem _, rfl, Timings.keeps.optional _ _ _⟩

theorem Score.keeps : Keeps Score.Means Score.Edit := declares.keeps nofun

theorem ScoreTable.keeps : Keeps ScoreTable.Means ScoreTable.Edit := by
  rintro tree tree' hshown hedit table ⟨entries, hentries, htable⟩
  exact ⟨entries, Score.keeps.entries _ _ hshown hedit entries hentries, htable⟩

theorem FunctionCounts.keeps : Keeps FunctionCounts.Means FunctionCounts.Edit := by
  apply declares.keeps
  simp only [List.forall_mem_singleton]
  exact ⟨columns[5], List.getElem_mem _, rfl, ScoreTable.keeps.optional _ _ _⟩

theorem Analysis.keeps : Keeps Analysis.Means Analysis.Edit := by
  apply declares.keeps
  simp only [List.forall_mem_singleton]
  exact ⟨columns[5], List.getElem_mem _, rfl, FunctionCounts.keeps.optional _ _ _⟩

theorem StaticString.keeps : Keeps StaticString.Means StaticString.Edit := declares.keeps nofun

theorem LanguageString.keeps : Keeps LanguageString.Means LanguageString.Edit :=
  declares.keeps nofun

theorem FrameString.keeps : Keeps FrameString.Means FrameString.Edit := declares.keeps nofun

theorem DecodedString.keeps : Keeps DecodedString.Means DecodedString.Edit := declares.keeps nofun

theorem Findings.keeps : Keeps Findings.Means Findings.Edit := by
  apply declares.keeps
  simp only [List.forall_mem_cons, List.not_mem_nil, false_imp_iff, implies_true, and_true]
  refine ⟨?_, ?_, ?_, ?_, ?_, ?_⟩
  · exact ⟨columns[0], List.getElem_mem _, rfl, FrameString.keeps.list.optional _ _ _⟩
  · exact ⟨columns[1], List.getElem_mem _, rfl, FrameString.keeps.list.optional _ _ _⟩
  · exact ⟨columns[2], List.getElem_mem _, rfl, DecodedString.keeps.list.optional _ _ _⟩
  · exact ⟨columns[3], List.getElem_mem _, rfl, StaticString.keeps.list.optional _ _ _⟩
  · exact ⟨columns[4], List.getElem_mem _, rfl, LanguageString.keeps.list.optional _ _ _⟩
  · exact ⟨columns[5], List.getElem_mem _, rfl, LanguageString.keeps.list.optional _ _ _⟩

namespace Document

theorem keeps : Keeps Means Edit := by
  apply declares.keeps
  simp only [List.forall_mem_cons, List.not_mem_nil, false_imp_iff, implies_true, and_true]
  refine ⟨?_, ?_, ?_⟩
  · exact ⟨columns[0], List.getElem_mem _, rfl, Metadata.keeps.required _ _⟩
  · exact ⟨columns[1], List.getElem_mem _, rfl, Analysis.keeps.required _ _⟩
  · exact ⟨columns[2], List.getElem_mem _, rfl, Findings.keeps.required _ _⟩

/-! ## Revisions of a text -/

/-- A change that a text may have undergone between two versions of the program. -/
inductive Revision : String → String → Prop
  /-- Other blanks between the lexemes. -/
  | respace {text text' : String} : Respaced text.toList text'.toList → Revision text text'
  /-- An edit of the value that the text holds. -/
  | edit {text text' : String} {tree tree' : Tree} :
    IsText tree text.toList → IsText tree' text'.toList → Edit tree tree' → Revision text text'

variable {text text' : String} {d : Document}

theorem Revision.reads (h : Revision text text') (hread : ofText text = .ok d) :
    ofText text' = .ok d := by
  cases h with
  | respace hspaces =>
    obtain ⟨tree, htext⟩ := exists_isText hread
    rw [ofText_eq_ok_of_isText htext] at hread
    rwa [ofText_eq_ok_of_isText (htext.of_respaced hspaces)]
  | edit htext htext' hedit =>
    rw [ofText_eq_ok_of_isText htext] at hread
    rw [ofText_eq_ok_of_isText htext']
    exact keeps _ _ (isShown_of_isText htext) hedit d hread

/-- After any number of revisions an accepted text is accepted and holds the same document. -/
theorem ofText_eq_ok_of_revisions (h : Relation.ReflTransGen Revision text text')
    (hread : ofText text = .ok d) : ofText text' = .ok d := by
  induction h with
  | refl => exact hread
  | tail _ hlast ih => exact hlast.reads ih

/-- The value of a document in lists, but for what stands for the analysis. -/
def listedTree (analysis : Tree) : Tree :=
  .list ([.list [.string ['a']]] ++ analysis :: [.list []])

theorem edit_listedTree {analysis analysis' : Tree} (h : Analysis.Edit analysis analysis') :
    Edit (listedTree analysis) (listedTree analysis') :=
  .item (by decide : 1 < columns.length)
    (List.mem_cons_of_mem _ List.mem_cons_self : ("analysis", Analysis.Edit) ∈ _) rfl h

/-- A document of an older program, laid out in one line. -/
def olderText : String := "[[\"a\"],\x7b\"functions\":\x7b\"library\":0\x7d\x7d,[]]"

/-- The document with a member that is not known here and without one that says nothing. -/
def newerText : String := "\n[[\"a\"],\x7b\"new\":null,\"functions\":\x7b\x7d\x7d,[]]"

/-- A member goes that says what is the case without it, one comes in that nothing is known of,
then these change places, and last the text is moved to another line. -/
theorem ofText_eq_ok_of_revisions_olderText :
    ofText olderText = .ok { metadata := { filePath := "a", minLength := 0 } } ∧
    Relation.ReflTransGen Revision olderText newerText ∧
    ofText newerText = .ok { metadata := { filePath := "a", minLength := 0 } } := by
  have hspells (name : String) (h : (⟨name.toList, true, 0⟩ : RawString).decode = .ok name) :
      Spells name.toList name.toList := (RawString.decode_eq_ok.1 h).2
  let functions := "functions".toList
  let library : List Char × Tree := ("library".toList, .number ⟨false, ['0'], none, none⟩)
  let news : List Char × Tree := ("new".toList, .null)
  have hold : IsText (listedTree (.object ([] ++ (functions, .object ([] ++ library :: [])) :: [])))
      olderText.toList := by
    rw [isText_iff_tree]
    cbv
  have hshort : IsText (listedTree (.object ([] ++ (functions, .object ([] ++ [])) :: [])))
      "[[\"a\"],\x7b\"functions\":\x7b\x7d\x7d,[]]".toList := by
    rw [isText_iff_tree]
    cbv
  have hnew : IsText (listedTree (.object ([(functions, .object [])] ++ news :: [])))
      "[[\"a\"],\x7b\"functions\":\x7b\x7d,\"new\":null\x7d,[]]".toList := by
    rw [isText_iff_tree]
    cbv
  have hturned : IsText (listedTree (.object [news, (functions, .object [])]))
      "[[\"a\"],\x7b\"new\":null,\"functions\":\x7b\x7d\x7d,[]]".toList := by
    rw [isText_iff_tree]
    cbv
  have hread : ofText olderText = .ok { metadata := { filePath := "a", minLength := 0 } } := by cbv
  have hzero : Tree.MeansWord64 library.2 0 := ⟨['0'], rfl, rfl, by decide⟩
  have hspares : (Column.optional "library" Tree.MeansWord64 FunctionCounts.library 0).Spares
      library.2 := (Column.spares_optional_iff ⟨({} : FunctionCounts), rfl⟩).2 hzero
  have hdelete : Revision _ _ := .edit hold hshort <| edit_listedTree <|
    .member List.mem_cons_self (hspells "functions" (by cbv)) <|
    .delete (List.mem_cons_of_mem _ List.mem_cons_self) (hspells "library" (by cbv)) hspares
  have hunknown : "new" ∉ Analysis.columns.map Column.name := by decide
  have hinner : Analysis.Edit (.object ([(functions, .object [])] ++ []))
      (.object ([(functions, .object [])] ++ news :: [])) :=
    .insert (hspells "new" (by cbv)) hunknown
  have hinsert : Revision _ _ := .edit hshort hnew (edit_listedTree hinner)
  have hpermute : Revision _ _ := .edit hnew hturned <| edit_listedTree <|
    .permute (.swap _ _ _)
  have hblank : IsBlank ['\n'] := by simp [IsBlank, isSpace]
  have hrespace : Revision _ newerText :=
    .respace (hturned.respaced_blank hblank)
  have hrevisions := Relation.ReflTransGen.single hdelete
    |>.tail hinsert |>.tail hpermute |>.tail hrespace
  exact ⟨hread, hrevisions, ofText_eq_ok_of_revisions hrevisions hread⟩

end Document
end StringReport
