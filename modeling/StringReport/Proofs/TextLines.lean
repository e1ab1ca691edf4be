import StringReport.Layout.StyledText
import StringReport.Proofs.Inert
import StringReport.Proofs.WordDivisions

/-!
# The lines of a text

Splitting a text at its line feeds keeps every other character: none is lost and none is
added, and there is one line more than there are line feeds. The lines of a text of one span
are the lines of its characters, each in the same tone.
-/
namespace StringReport

/-! ## Parts -/

theorem mark_notMem_partsOn (mark : Char) (text : List Char) :
    ∀ part ∈ partsOn mark text, mark ∉ part := by
  induction text with
  | nil => simp [partsOn, splitOn]
  | cons c rest ih =>
    simp only [partsOn, List.mem_cons, forall_eq_or_imp] at ih
    obtain ⟨hfirst, hlater⟩ := ih
    by_cases hc : c = mark
    · simpa [partsOn, splitOn, hc] using ⟨hfirst, hlater⟩
    · simpa [partsOn, splitOn, hc, Ne.symm hc] using ⟨hfirst, hlater⟩

/-- The characters of the parts are those of the text in their order, but for the marks. -/
theorem flatten_partsOn (mark : Char) (text : List Char) :
    (partsOn mark text).flatten = text.filter (· ≠ mark) := by
  induction text with
  | nil => rfl
  | cons c rest ih =>
    simp only [partsOn, List.flatten_cons] at ih
    by_cases hc : c = mark
    · simpa [partsOn, splitOn, hc] using ih
    · simpa [partsOn, splitOn, hc] using ih

theorem exists_mem_partsOn (mark : Char) (text : List Char) (c : Char) :
    (∃ part ∈ partsOn mark text, c ∈ part) ↔ c ∈ text ∧ c ≠ mark := by
  rw [← List.mem_flatten, flatten_partsOn]
  simp

theorem length_partsOn (mark : Char) (text : List Char) :
    (partsOn mark text).length = text.count mark + 1 := by
  induction text with
  | nil => rfl
  | cons c rest ih =>
    simp only [partsOn, List.length_cons] at ih
    by_cases hc : c = mark
    · simp [partsOn, splitOn, hc, ih]
    · simp [partsOn, splitOn, hc, ih]

theorem splitOn_of_notMem {mark : Char} {text : List Char} (h : mark ∉ text) :
    splitOn mark text = (text, []) := by
  induction text with
  | nil => rfl
  | cons c rest ih =>
    simp only [List.mem_cons, not_or] at h
    simp [splitOn, ih h.2, Ne.symm h.1]

/-- The part before the first mark is the first, and the others are those of what follows. -/
theorem partsOn_append {mark : Char} {first : List Char} (h : mark ∉ first) (rest : List Char) :
    partsOn mark (first ++ mark :: rest) = first :: partsOn mark rest := by
  induction first with
  | nil => simp [partsOn, splitOn]
  | cons c first ih =>
    simp only [List.mem_cons, not_or] at h
    have hparts := ih h.2
    simp only [partsOn, List.cons.injEq] at hparts
    simp [partsOn, splitOn, hparts, Ne.symm h.1]

/-- Texts that are the same are the same before and after their first marks. -/
theorem eq_of_append_mark {mark : Char} {first first' rest rest' : List Char}
    (h : mark ∉ first) (h' : mark ∉ first')
    (heq : first ++ mark :: rest = first' ++ mark :: rest') : first = first' ∧ rest = rest' := by
  have hparts := congrArg (partsOn mark) heq
  rw [partsOn_append h, partsOn_append h'] at hparts
  obtain rfl := (List.cons.inj hparts).1
  exact ⟨rfl, (List.cons.inj (List.append_cancel_left heq)).2⟩

theorem intercalate_partsOn (mark : Char) (text : List Char) :
    [mark].intercalate (partsOn mark text) = text := by
  induction text with
  | nil => simp [partsOn, splitOn]
  | cons c rest ih =>
    simp only [partsOn, splitOn] at ih ⊢
    split
    · next hc => rw [List.intercalate_cons_cons, ih, hc, List.nil_append, List.singleton_append]
    · cases hlater : (splitOn mark rest).2 with
      | nil => simpa [hlater] using ih
      | cons next later =>
        rw [hlater, List.intercalate_cons_cons] at ih
        rw [List.intercalate_cons_cons, List.cons_append, List.cons_append, ih]

/-- Parts without marks are found again between the marks. -/
theorem partsOn_intercalate {mark : Char} {parts : List (List Char)} (hne : parts ≠ [])
    (h : ∀ part ∈ parts, mark ∉ part) : partsOn mark ([mark].intercalate parts) = parts := by
  induction parts with
  | nil => exact absurd rfl hne
  | cons part parts ih =>
    obtain ⟨hpart, hparts⟩ := List.forall_mem_cons.1 h
    cases parts with
    | nil => simp [partsOn, splitOn_of_notMem hpart]
    | cons next parts =>
      rw [List.intercalate_cons_cons, List.append_assoc, List.singleton_append,
        partsOn_append hpart, ih (List.cons_ne_nil _ _) hparts]

/-! ## Lines -/

theorem newline_notMem_linesOf {s line : String} (h : line ∈ linesOf s) :
    '\n' ∉ line.toList := by
  obtain ⟨part, hpart, rfl⟩ := List.mem_map.1 h
  simpa using mark_notMem_partsOn '\n' s.toList part hpart

theorem mem_of_mem_linesOf {s line : String} (h : line ∈ linesOf s) {c : Char}
    (hc : c ∈ line.toList) : c ∈ s.toList := by
  obtain ⟨part, hpart, rfl⟩ := List.mem_map.1 h
  exact ((exists_mem_partsOn '\n' s.toList c).1 ⟨part, hpart, by simpa using hc⟩).1

/-- Every character that is no line feed stands on one of the lines. -/
theorem exists_mem_linesOf {s : String} {c : Char} (h : c ∈ s.toList) (hc : c ≠ '\n') :
    ∃ line ∈ linesOf s, c ∈ line.toList := by
  obtain ⟨part, hpart, hmem⟩ := (exists_mem_partsOn '\n' s.toList c).2 ⟨h, hc⟩
  exact ⟨String.ofList part, List.mem_map_of_mem hpart, by simpa using hmem⟩

theorem length_linesOf (s : String) : (linesOf s).length = s.toList.count '\n' + 1 := by
  simp [linesOf, length_partsOn]

theorem linesOf_of_notMem {s : String} (h : '\n' ∉ s.toList) : linesOf s = [s] := by
  simp [linesOf, partsOn, splitOn_of_notMem h]

theorem intercalate_linesOf (s : String) : "\n".intercalate (linesOf s) = s := by
  apply String.toList_injective
  rw [String.toList_intercalate, linesOf, List.map_map]
  simpa [Function.comp_def] using intercalate_partsOn '\n' s.toList

theorem linesOf_intercalate {lines : List String} (hne : lines ≠ [])
    (h : ∀ line ∈ lines, '\n' ∉ line.toList) : linesOf ("\n".intercalate lines) = lines := by
  have hparts : ∀ part ∈ lines.map String.toList, '\n' ∉ part := by simpa using h
  have hsame := partsOn_intercalate (by simpa using hne) hparts
  rw [linesOf, String.toList_intercalate]
  exact (congrArg (List.map String.ofList) hsame).trans (by simp [Function.comp_def])

theorem InertLines.of_mem_linesOf {s line : String} (h : InertLines s.toList)
    (hline : line ∈ linesOf s) : Inert line.toList := by
  intro c hc
  refine h c (mem_of_mem_linesOf hline hc) ?_
  rintro rfl
  exact newline_notMem_linesOf hline hc

/-! ## Styled text of one span -/

namespace StyledText

/-- A text of one span, or of none if that is empty. -/
def single (tone : Tone) (text : String) : StyledText := empty.push text tone

theorem plain_eq (text : String) : plain text = single .plain text := rfl

theorem prepend_empty (part : List Char) (tone : Tone) :
    prepend part tone empty = single tone (String.ofList part) := by
  by_cases h : part = []
  · simp [prepend, single, push, h]
  · simp [prepend, single, push, h, empty]

theorem graft_empty (tone : Tone) (first : List Char) (parts : List (List Char)) :
    graft tone first parts (empty, []) =
      (single tone (String.ofList first), parts.map fun part => single tone (.ofList part)) := by
  induction parts generalizing first with
  | nil => simp [graft, prepend_empty]
  | cons next parts ih => simp [graft, prepend_empty, ih]

theorem lines_single (tone : Tone) (text : String) :
    (single tone text).lines = (linesOf text).map (single tone) := by
  by_cases h : text = ""
  · subst h
    rfl
  · have hspans : (single tone text).spans = [⟨text, tone⟩] := by
      simp [single, push, h, empty]
    simp [lines, hspans, splitSpans, graft_empty, linesOf, partsOn]

end StyledText

/-! ## Wrapped text -/

theorem flatMap_intercalate {α β : Type} (f : α → List β) (separator : List α)
    (parts : List (List α)) :
    (separator.intercalate parts).flatMap f =
      (separator.flatMap f).intercalate (parts.map (·.flatMap f)) := by
  induction parts with
  | nil => rfl
  | cons part parts ih =>
    cases parts with
    | nil => simp
    | cons next parts =>
      simp only [List.map_cons] at ih ⊢
      rw [List.intercalate_cons_cons, List.intercalate_cons_cons, List.flatMap_append,
        List.flatMap_append, ih]

theorem map_intercalate {α β : Type} (g : α → β) (separator : List α) (parts : List (List α)) :
    (separator.intercalate parts).map g = (separator.map g).intercalate (parts.map (·.map g)) := by
  simpa only [List.map_eq_flatMap] using flatMap_intercalate (fun a => [g a]) separator parts

theorem mem_intercalate {α : Type} {separator : List α} {parts : List (List α)} {c : α}
    (h : c ∈ separator.intercalate parts) : c ∈ separator ∨ ∃ part ∈ parts, c ∈ part := by
  induction parts with
  | nil => simp at h
  | cons part parts ih =>
    cases parts with
    | nil => exact Or.inr ⟨part, by simp, by simpa using h⟩
    | cons next parts =>
      rw [List.intercalate_cons_cons, List.mem_append, List.mem_append] at h
      rcases h with (h | h) | h
      · exact Or.inr ⟨part, by simp, h⟩
      · exact Or.inl h
      · rcases ih h with h | ⟨p, hp, hc⟩
        · exact Or.inl h
        · exact Or.inr ⟨p, List.mem_cons_of_mem _ hp, hc⟩

/-- Wrapping a text adds only spaces and line feeds. -/
theorem mem_of_mem_wrap {text : String} {width : Nat} {c : Char}
    (h : c ∈ (wrap text width).toList) : c ∈ text.toList ∨ c = ' ' ∨ c = '\n' := by
  obtain ⟨division, -, hflatten, hwrap⟩ := Wrap.exists_greedy_wrap text width
  rw [hwrap, String.toList_intercalate] at h
  rcases mem_intercalate h with h | ⟨part, hpart, hc⟩
  · exact Or.inr (Or.inr (by simpa using h))
  · simp only [List.map_map, List.mem_map, Function.comp] at hpart
    obtain ⟨words, hwords, rfl⟩ := hpart
    rw [Wrap.line, String.toList_intercalate] at hc
    rcases mem_intercalate hc with hc | ⟨word, hword, hc⟩
    · exact Or.inr (Or.inl (by simpa using hc))
    · obtain ⟨w, hw, rfl⟩ := List.mem_map.1 hword
      have hmem : w ∈ Wrap.pieces text := hflatten ▸ List.mem_flatten_of_mem hwords hw
      exact Or.inl (Wrap.mem_of_mem_pieces hmem hc)

theorem Inert.wrap {text : String} (h : Inert text.toList) (width : Nat) :
    InertLines (wrap text width).toList := by
  intro c hc hn
  rcases mem_of_mem_wrap hc with hc | rfl | rfl
  · exact h c hc
  · decide
  · exact absurd rfl hn

end StringReport
