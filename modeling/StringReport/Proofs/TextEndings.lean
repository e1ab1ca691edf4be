import Mathlib
import StringReport.Proofs.AcceptedDocuments

/-!
# Where a document ends

The value of a document is a list or an object, and its text ends where the bracket or brace is
that closes it. Nothing can go on with such a value, as a digit can go on with a number: any text
after it leaves the value as it is and is found to follow it, unless it is blank. So of two
accepted texts of which one starts with the other, both hold the same document.
-/
namespace StringReport
namespace Json

/-- A value that brackets or braces enclose. -/
def Tree.IsContainer : Tree → Prop
  | .list _ | .object _ => True
  | .null | .boolean _ | .number _ | .string _ => False

theorem Tree.MeansRecord.isContainer {α : Type} {columns : List (Column α)} {tree : Tree} {a : α}
    (h : tree.MeansRecord columns a) : tree.IsContainer := by
  cases h with
  | object => trivial
  | list => trivial

theorem foldl_step_stopped (outline : Outline) (later : List Token) :
    later.foldl State.step (.stopped outline) = .stopped outline := by
  induction later with
  | nil => rfl
  | cons token later ih => exact ih

/-- The first token after the value of a text ends the reading. -/
theorem finish_foldl_after (node : Node) (later : List Token) :
    (later.foldl State.step (.after [] node)).finish = ⟨node, !later.isEmpty⟩ := by
  cases later with
  | nil => rfl
  | cons token later =>
    rw [List.foldl_cons]
    show (later.foldl State.step (.stopped ⟨node, true⟩)).finish = _
    rw [foldl_step_stopped]
    rfl

/-- A text that holds a list or an object holds it whatever follows, and what follows is noticed
unless it is blank. -/
theorem exists_outline_append {tree : Tree} {text : List Char} (h : IsText tree text)
    (hcontainer : tree.IsContainer) (rest : List Char) :
    ∃ node trailing, Shows node tree ∧ outline (text ++ rest) = ⟨node, trailing⟩ ∧
      (trailing = false ↔ IsBlank rest) := by
  obtain ⟨hbefore, htext, hafter⟩ := h
  next before used after =>
  have hnumber (n : Numeral) (hn : tree = .number n) : Numeral.Ends (after ++ rest) := by
    subst hn
    exact absurd hcontainer id
  obtain ⟨node, hnode, htokens⟩ := exists_tokens_text htext hnumber
  refine ⟨node, !(tokens rest).isEmpty, hnode, ?_, ?_⟩
  · rw [outline, List.append_assoc, List.append_assoc, tokens_blank hbefore, htokens,
      tokens_blank hafter, foldl_tokens hnode, finish_foldl_after]
  · rw [Bool.not_eq_false', List.isEmpty_iff, tokens_eq_nil_iff]

end Json

open Json

namespace Document

variable {text more : String} {d : Document}

/-- What is appended to an accepted text is noticed, unless it is blank. -/
theorem ofText_append_of_ok (h : ofText text = .ok d) (more : String) :
    (IsBlank more.toList → ofText (text ++ more) = .ok d) ∧
      (¬ IsBlank more.toList → ofText (text ++ more) = .error .trailing) := by
  obtain ⟨tree, htext⟩ := exists_isText h
  have hmeans : Document.Means tree d := (ofText_eq_ok_of_isText htext).1 h
  have hroot := unbroken_outline (text ++ more).toList
  obtain ⟨node, trailing, hnode, houtline, htrailing⟩ :=
    exists_outline_append htext hmeans.isContainer more.toList
  rw [← String.toList_append] at houtline
  rw [houtline] at hroot
  have hdoc : Document.schema.decode node = .ok d :=
    (Document.decodes.iff_of_shows hroot hnode).2 hmeans
  have hrun : ofText (text ++ more) = if trailing then .error .trailing else .ok d := by
    simp only [ofText, houtline, hdoc, bind, Except.bind]
  constructor
  · intro hblank
    rw [hrun, htrailing.2 hblank]
    rfl
  · intro hblank
    rw [hrun, eq_true_of_ne_false (mt htrailing.1 hblank)]
    rfl

/-- Of an accepted document no part is accepted that lacks more than blanks at the end, and
nothing that has more than blanks beyond its end; with blanks at the end it is the same. -/
theorem blank_of_ofText_append (text more : String) :
    (∀ d d', ofText text = .ok d → ofText (text ++ more) = .ok d' →
      (∀ c ∈ more.toList, isSpace c) ∧ d = d') ∧
    ((∃ c ∈ more.toList, ¬ isSpace c) →
      (∀ d, ofText text = .ok d → ofText (text ++ more) = .error .trailing) ∧
      ∀ d, ofText (text ++ more) = .ok d → ∃ fault, ofText text = .error fault) := by
  constructor
  · intro d d' h h'
    obtain ⟨hblank, hnot⟩ := ofText_append_of_ok h more
    by_cases hmore : IsBlank more.toList
    · rw [hblank hmore] at h'
      exact ⟨hmore, Except.ok.inj h'⟩
    · rw [hnot hmore] at h'
      cases h'
  · rintro ⟨c, hc, hspace⟩
    have hmore : ¬ IsBlank more.toList := fun hblank => hspace (hblank c hc)
    constructor
    · intro d h
      exact (ofText_append_of_ok h more).2 hmore
    · intro d h'
      cases h : ofText text with
      | error fault => exact ⟨fault, rfl⟩
      | ok d' =>
        rw [(ofText_append_of_ok h more).2 hmore] at h'
        cases h'

/-- A document in lists, which leave out all that may be left out. -/
def listedSample : Document where
  metadata := { filePath := "a", minLength := 0 }

/-- Without its last bracket a document is refused, and so it is with one too many. -/
theorem blank_of_ofText_append_listedSample :
    (∃ c ∈ "]".toList, ¬ isSpace c) ∧
    ofText ("[[\"a\"],[],[]" ++ "]") = .ok listedSample ∧
    (∃ fault, ofText "[[\"a\"],[],[]" = .error fault) ∧
    ofText ("[[\"a\"],[],[]]" ++ "]") = .error .trailing ∧
    ofText ("[[\"a\"],[],[]]" ++ "\n") = .ok listedSample ∧
    ∀ c ∈ "\n".toList, isSpace c := by
  have hbracket : ∃ c ∈ "]".toList, ¬ isSpace c := ⟨']', List.mem_singleton_self _, by decide⟩
  have hwhole : ofText "[[\"a\"],[],[]]" = .ok listedSample := by cbv
  have hjoined : ofText ("[[\"a\"],[],[]" ++ "]") = .ok listedSample := by cbv
  have hended : ofText ("[[\"a\"],[],[]]" ++ "\n") = .ok listedSample := by cbv
  refine ⟨hbracket, hjoined, ?_, ?_, hended, ?_⟩
  · exact ((blank_of_ofText_append "[[\"a\"],[],[]" "]").2 hbracket).2 _ hjoined
  · exact ((blank_of_ofText_append "[[\"a\"],[],[]]" "]").2 hbracket).1 _ hwhole
  · exact ((blank_of_ofText_append "[[\"a\"],[],[]]" "\n").1 _ _ hwhole hended).1

end Document
end StringReport
