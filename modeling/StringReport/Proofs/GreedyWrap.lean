import Mathlib.Order.Bounds.Defs
import StringReport.Proofs.TextLines

/-!
# Wrapped texts

A wrapped text is described by its lines alone: they have the pieces of the text in their order,
each line has pieces with one space between any two, none is too wide but for one word that is, and
none ends before it has to. One text is like that, so wrapping it again does the same as wrapping
the text it was made of, and there is no way to use fewer lines.
-/
namespace StringReport

namespace Wrap

variable {width : Nat} {text wrapped : String}

/-- The lines of a wrapped text. Where there is no word, there is no line. -/
def linesIn (wrapped : String) : List String := if wrapped = "" then [] else linesOf wrapped

/-- A text is another one wrapped to a width. -/
structure IsWrapped (width : Nat) (text wrapped : String) : Prop where
  pieces_eq : pieces wrapped = pieces text
  spaced : ∀ l ∈ linesIn wrapped, pieces l ≠ [] ∧ l = " ".intercalate (pieces l)
  fits : ∀ l ∈ linesIn wrapped, size l ≤ width ∨ (pieces l).length = 1
  full : (linesIn wrapped).IsChain fun l next =>
    ∀ word ∈ (pieces next).head?, width < size l + 1 + size word

theorem intercalate_linesIn (wrapped : String) : "\n".intercalate (linesIn wrapped) = wrapped := by
  unfold linesIn
  split
  · next h => rw [h, String.intercalate_nil]
  · exact intercalate_linesOf wrapped

theorem IsWord.newline_notMem {word : String} (h : IsWord word) : '\n' ∉ word.toList := fun hn =>
  Bool.false_ne_true ((h.not_blank _ hn).symm.trans Character.isBlank_newline)

theorem newline_notMem_line {words : List String} (h : ∀ word ∈ words, IsWord word) :
    '\n' ∉ (line words).toList := by
  intro hn
  rw [line, String.toList_intercalate] at hn
  rcases mem_intercalate hn with hspace | ⟨part, hpart, hmem⟩
  · exact absurd hspace (by decide)
  · obtain ⟨word, hword, rfl⟩ := List.mem_map.1 hpart
    exact (h word hword).newline_notMem hmem

section

variable {division : List (List String)}

theorem pieces_intercalate_lines (h : ∀ ws ∈ division, ∀ word ∈ ws, IsWord word) :
    pieces ("\n".intercalate (division.map line)) = division.flatten := by
  rw [pieces_intercalate_newline, List.flatMap_map,
    List.flatMap_congr fun ws hws => pieces_line (h ws hws), List.flatMap_id']

/-- The lines of a division are read back. -/
theorem linesIn_intercalate (hne : ∀ ws ∈ division, ws ≠ [])
    (h : ∀ ws ∈ division, ∀ word ∈ ws, IsWord word) :
    linesIn ("\n".intercalate (division.map line)) = division.map line := by
  cases division with
  | nil => rfl
  | cons first later =>
    have hnonempty : "\n".intercalate ((first :: later).map line) ≠ "" := by
      intro hempty
      have hwords := pieces_intercalate_lines h
      rw [hempty] at hwords
      exact hne first List.mem_cons_self (List.append_eq_nil_iff.1 hwords.symm).1
    rw [linesIn, if_neg hnonempty, linesOf_intercalate (by simp)]
    intro l hl
    obtain ⟨ws, hws, rfl⟩ := List.mem_map.1 hl
    exact newline_notMem_line (h ws hws)

theorem isWord_of_flatten (h : division.flatten = pieces text) :
    ∀ ws ∈ division, ∀ word ∈ ws, IsWord word := fun _ hws _ hword =>
  isWord_of_mem_pieces (h ▸ List.mem_flatten_of_mem hws hword)

end

theorem isWrapped_of_greedy {division : List (List String)} (hgreedy : Greedy width division)
    (hflatten : division.flatten = pieces text) :
    IsWrapped width text ("\n".intercalate (division.map line)) := by
  have hwords := isWord_of_flatten hflatten
  have hlines := linesIn_intercalate hgreedy.ne_nil hwords
  refine ⟨?_, ?_, ?_, ?_⟩
  · rw [pieces_intercalate_lines hwords, hflatten]
  · rw [hlines, List.forall_mem_map]
    intro ws hws
    rw [pieces_line (hwords ws hws)]
    exact ⟨hgreedy.ne_nil ws hws, rfl⟩
  · rw [hlines, List.forall_mem_map]
    intro ws hws
    rw [pieces_line (hwords ws hws)]
    exact hgreedy.fits ws hws
  · rw [hlines, List.isChain_map]
    refine hgreedy.full.imp_of_mem_imp fun ws next hws hnext hfull => ?_
    rwa [pieces_line (hwords next hnext)]

theorem IsWrapped.greedy (h : IsWrapped width text wrapped) :
    Greedy width ((linesIn wrapped).map pieces) where
  ne_nil := by
    rw [List.forall_mem_map]
    exact fun l hl => (h.spaced l hl).1
  fits := by
    rw [List.forall_mem_map]
    intro l hl
    rw [Fits, line, ← (h.spaced l hl).2]
    exact h.fits l hl
  full := by
    rw [List.isChain_map]
    refine h.full.imp_of_mem_imp fun l next hl hnext hfull => ?_
    rwa [line, ← (h.spaced l hl).2]

theorem IsWrapped.eq_intercalate (h : IsWrapped width text wrapped) :
    wrapped = "\n".intercalate (((linesIn wrapped).map pieces).map line) := by
  have hlines : ((linesIn wrapped).map pieces).map line = linesIn wrapped := by
    rw [List.map_map]
    exact (List.map_congr_left fun l hl => (h.spaced l hl).2.symm).trans (List.map_id _)
  rw [hlines, intercalate_linesIn]

theorem IsWrapped.flatten_eq (h : IsWrapped width text wrapped) :
    ((linesIn wrapped).map pieces).flatten = pieces text := by
  rw [← h.pieces_eq, ← List.flatMap_def, ← pieces_intercalate_newline, intercalate_linesIn]

theorem isWrapped_wrap (text : String) (width : Nat) : IsWrapped width text (wrap text width) := by
  obtain ⟨division, hgreedy, hflatten, hwrap⟩ := exists_greedy_wrap text width
  exact hwrap ▸ isWrapped_of_greedy hgreedy hflatten

theorem IsWrapped.eq_wrap (h : IsWrapped width text wrapped) : wrapped = wrap text width := by
  obtain ⟨division, hgreedy, hflatten, hwrap⟩ := exists_greedy_wrap text width
  rw [h.eq_intercalate, hwrap, h.greedy.unique hgreedy (h.flatten_eq.trans hflatten.symm)]

theorem wrap_congr {a b : String} (h : pieces a = pieces b) (width : Nat) :
    wrap a width = wrap b width := by
  rw [wrap, wrap, words_eq_pieces, words_eq_pieces, h]

/-! ## Width and text -/

/-- A text with a space for each line feed. -/
def unbroken (text : String) : String := text.map fun c => if c = '\n' then ' ' else c

end Wrap

open Wrap

/-- One text is another one wrapped to a width, and it is what wrapping makes. It is empty if
there are no pieces. As it has the pieces of the text, wrapping it again wraps the text. -/
theorem isWrapped_iff_eq_wrap (text : String) (width : Nat) :
    (∀ wrapped, IsWrapped width text wrapped ↔ wrapped = wrap text width) ∧
      (wrap text width = "" ↔ pieces text = []) ∧
      ∀ other, wrap (wrap text width) other = wrap text other := by
  have hsame : pieces (wrap text width) = pieces text := (isWrapped_wrap text width).pieces_eq
  refine ⟨fun wrapped => ⟨IsWrapped.eq_wrap, ?_⟩, ⟨fun hempty => ?_, fun hnone => ?_⟩,
    fun other => ?_⟩
  · rintro rfl
    exact isWrapped_wrap text width
  · rw [← hsame, hempty]
    rfl
  · rw [wrap, words_eq_pieces, hnone]
    rfl
  · exact wrap_congr hsame other

example : wrap " aa\tbb  cc dddddd\ne " 5 = "aa bb\ncc\ndddddd\ne" := by decide +kernel

/-- Of all ways to divide the pieces of a text among lines that stay within the width, or have one
word, wrapping takes one with the fewest lines. -/
theorem isLeast_length_linesIn_wrap (text : String) (width : Nat) :
    IsLeast {n | ∃ division : List (List String), division.flatten = pieces text ∧
        (∀ ws ∈ division, ws ≠ [] ∧ (size (" ".intercalate ws) ≤ width ∨ ws.length = 1)) ∧
        division.length = n}
      (linesIn (wrap text width)).length := by
  obtain ⟨division, hgreedy, hflatten, hwrap⟩ := exists_greedy_wrap text width
  have hlines : (linesIn (wrap text width)).length = division.length := by
    rw [hwrap, linesIn_intercalate hgreedy.ne_nil (isWord_of_flatten hflatten), List.length_map]
  rw [hlines]
  refine ⟨⟨division, hflatten, fun ws hws => ⟨hgreedy.ne_nil ws hws, hgreedy.fits ws hws⟩, rfl⟩, ?_⟩
  rintro _ ⟨other, hother, hfits, rfl⟩
  have hsame : division.flatten = other.flatten := hflatten.trans hother.symm
  exact hgreedy.length_le_of_suffix (fun ws hws => (hfits ws hws).2) (hsame ▸ List.suffix_refl _)

end StringReport
