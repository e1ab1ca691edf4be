import Mathlib.Data.List.Chain
import StringReport.Text.Wrap

/-!
# Words divided among lines

The words of a text are the pieces into which blanks part it, and it does not matter which blanks
these are. Wrapping a text divides its words among lines: every line holds words a space apart, is
as wide as is allowed at most unless it is one word, and has no room for the word that the next
line begins with. There is one such division of given words, and no division into lines of that
kind has fewer lines.
-/
namespace StringReport.Wrap

/-! ## Words -/

/-- The parts of a text between its blanks, but for the empty ones. -/
def parts (text : List Char) : List (List Char) :=
  (text.splitOnP Character.isBlank).filter fun part => !part.isEmpty

/-- The pieces of a text: what stands between blanks and is not empty. -/
def pieces (text : String) : List String := (parts text.toList).map String.ofList

/-- Up to the first blank there may be nothing; after that, no part is empty. -/
theorem exists_splitOnP_eq (text : List Char) :
    ∃ later, text.splitOnP Character.isBlank = (split text).1 :: later ∧
      later.filter (fun part => !part.isEmpty) = (split text).2 := by
  induction text with
  | nil => exact ⟨[], List.splitOnP_nil, rfl⟩
  | cons c rest ih =>
    obtain ⟨later, hsplit, hlater⟩ := ih
    by_cases hc : Character.isBlank c = true
    · refine ⟨(split rest).1 :: later, ?_, ?_⟩
      · simp [List.splitOnP_cons_eq_if_modifyHead, split, hc, hsplit]
      · cases hfirst : (split rest).1 <;> simp [split, hc, hfirst, hlater]
    · refine ⟨later, ?_, ?_⟩
      · simp [List.splitOnP_cons_eq_if_modifyHead, split, hc, hsplit]
      · simp [split, hc, hlater]

/-- The words that are wrapped are the pieces. -/
theorem words_eq_pieces (text : String) : words text = pieces text := by
  obtain ⟨later, hsplit, hlater⟩ := exists_splitOnP_eq text.toList
  cases hfirst : (split text.toList).1 <;> simp [words, pieces, parts, hsplit, hfirst, hlater]

/-- A word has characters, and none of them is blank. -/
structure IsWord (word : String) : Prop where
  ne_empty : word ≠ ""
  not_blank : ∀ c ∈ word.toList, Character.isBlank c = false

theorem parts_append_blank {c : Char} (hc : Character.isBlank c = true) (first rest : List Char) :
    parts (first ++ c :: rest) = parts first ++ parts rest := by
  rw [parts, List.splitOnP_append_cons first rest hc, List.filter_append, ← parts, ← parts]

theorem pieces_of_isWord {word : String} (h : IsWord word) : pieces word = [word] := by
  have hne : word.toList ≠ [] := by simpa using h.ne_empty
  simp [pieces, parts, List.splitOnP_eq_singleton h.not_blank, hne]

/-- What stands between blanks is of the text, without the blanks. -/
theorem of_mem_splitOnP {text part : List Char} (h : part ∈ text.splitOnP Character.isBlank) :
    ∀ c ∈ part, c ∈ text ∧ Character.isBlank c = false := by
  induction text generalizing part with
  | nil => simp_all
  | cons d rest ih =>
    have hmore {later : List Char} (hlater : later ∈ rest.splitOnP Character.isBlank) :
        ∀ c ∈ later, c ∈ d :: rest ∧ Character.isBlank c = false := fun c hc =>
      ⟨List.mem_cons_of_mem _ (ih hlater c hc).1, (ih hlater c hc).2⟩
    rw [List.splitOnP_cons_eq_if_modifyHead] at h
    split at h
    · rcases List.mem_cons.1 h with rfl | h
      · exact nofun
      · exact hmore h
    · next hd =>
      obtain ⟨first, later, hsplit⟩ :=
        List.exists_cons_of_ne_nil (List.splitOnP_ne_nil Character.isBlank rest)
      rw [hsplit] at hmore h
      rcases List.mem_cons.1 h with rfl | h
      · exact List.forall_mem_cons.2
          ⟨⟨List.mem_cons_self, by simpa using hd⟩, hmore List.mem_cons_self⟩
      · exact hmore (List.mem_cons_of_mem _ h)

theorem exists_of_mem_pieces {text word : String} (h : word ∈ pieces text) :
    ∃ part ∈ text.toList.splitOnP Character.isBlank, part ≠ [] ∧ word = String.ofList part := by
  rw [pieces] at h
  obtain ⟨part, hpart, rfl⟩ := List.mem_map.1 h
  obtain ⟨hmem, hne⟩ := List.mem_filter.1 hpart
  exact ⟨part, hmem, by simpa using hne, rfl⟩

theorem isWord_of_mem_pieces {text word : String} (h : word ∈ pieces text) : IsWord word := by
  obtain ⟨part, hpart, hne, rfl⟩ := exists_of_mem_pieces h
  exact ⟨by simpa using hne, fun c hc => (of_mem_splitOnP hpart c (by simpa using hc)).2⟩

theorem mem_of_mem_pieces {text word : String} (h : word ∈ pieces text) {c : Char}
    (hc : c ∈ word.toList) : c ∈ text.toList := by
  obtain ⟨part, hpart, -, rfl⟩ := exists_of_mem_pieces h
  exact (of_mem_splitOnP hpart c (by simpa using hc)).1

/-- The pieces of texts that a blank parts are those of each of them. -/
theorem pieces_intercalate {separator : String} {c : Char} (hseparator : separator.toList = [c])
    (hc : Character.isBlank c = true) (texts : List String) :
    pieces (separator.intercalate texts) = texts.flatMap pieces := by
  induction texts with
  | nil => rfl
  | cons text texts ih =>
    cases texts with
    | nil => simp
    | cons next texts =>
      rw [String.intercalate_cons_cons, List.flatMap_cons, ← ih, pieces, pieces, pieces,
        ← List.map_append, String.toList_append, String.toList_append, hseparator,
        List.append_assoc, List.singleton_append, parts_append_blank hc]

theorem pieces_intercalate_newline (texts : List String) :
    pieces ("\n".intercalate texts) = texts.flatMap pieces :=
  pieces_intercalate rfl Character.isBlank_newline texts

/-- The words of one line, a space apart. -/
def line (words : List String) : String := " ".intercalate words

theorem pieces_line {words : List String} (h : ∀ word ∈ words, IsWord word) :
    pieces (line words) = words := by
  rw [line, pieces_intercalate rfl Character.isBlank_space,
    List.flatMap_congr fun word hword => pieces_of_isWord (h word hword)]
  exact List.flatMap_singleton' words

/-! ## Sizes -/

/-- Every word but the last takes a space with it. -/
theorem size_line (words : List String) :
    size (line words) = (words.map (size · + 1)).sum - 1 := by
  induction words with
  | nil => rfl
  | cons word words ih =>
    cases words with
    | nil => simp [line, size]
    | cons next words =>
      have hnext : size (line (word :: next :: words)) =
          size word + 1 + size (line (next :: words)) := by
        simp only [line, size, String.intercalate_cons_cons, String.utf8ByteSize_append]
        rfl
      rw [hnext, ih]
      simp only [List.map_cons, List.sum_cons]
      omega

theorem size_line_concat {words : List String} (h : words ≠ []) (word : String) :
    size (line (words ++ [word])) = size (line words) + 1 + size word := by
  obtain ⟨first, later, rfl⟩ := List.exists_cons_of_ne_nil h
  rw [size_line, size_line]
  simp only [List.map_append, List.map_cons, List.sum_append, List.sum_cons, List.map_nil,
    List.sum_nil]
  omega

/-- Words with others before and after them make a longer line. -/
theorem size_line_le (before words after : List String) :
    size (line words) ≤ size (line (before ++ words ++ after)) := by
  rw [size_line, size_line]
  simp only [List.map_append, List.sum_append]
  omega

theorem line_concat {words : List String} (h : words ≠ []) (word : String) :
    line (words ++ [word]) = line words ++ " " ++ word := by
  induction words with
  | nil => exact absurd rfl h
  | cons first words ih =>
    cases words with
    | nil => simp [line, String.intercalate_cons_cons]
    | cons next words =>
      have hnext := ih (List.cons_ne_nil next words)
      simp only [line, List.cons_append, String.intercalate_cons_cons] at hnext ⊢
      rw [hnext]
      simp only [String.append_assoc]

/-! ## Divisions -/

/-- Words that can stand on one line: the line stays within the width, or it is one word. -/
def Fits (width : Nat) (words : List String) : Prop :=
  size (line words) ≤ width ∨ words.length = 1

/-- A division of words among lines in which no line has room for the word after it. -/
structure Greedy (width : Nat) (division : List (List String)) : Prop where
  ne_nil : ∀ words ∈ division, words ≠ []
  fits : ∀ words ∈ division, Fits width words
  full : division.IsChain fun words next =>
    ∀ word ∈ next.head?, width < size (line words) + 1 + size word

namespace Greedy

variable {width : Nat}

theorem tail {first : List String} {later : List (List String)}
    (h : Greedy width (first :: later)) : Greedy width later where
  ne_nil words hwords := h.ne_nil words (List.mem_cons_of_mem _ hwords)
  fits words hwords := h.fits words (List.mem_cons_of_mem _ hwords)
  full := h.full.of_cons

/-- No line that begins with the first one, or before it, can go on where that ends. -/
theorem length_le {first : List String} {later : List (List String)}
    (h : Greedy width (first :: later)) (before : List String) {words rest : List String}
    (hfits : Fits width words) (hsame : words ++ rest = before ++ first ++ later.flatten) :
    words.length ≤ (before ++ first).length := by
  by_contra hlt
  obtain ⟨more, hmore, -⟩ | ⟨more, rfl, hlater⟩ := List.append_eq_append_iff.1 hsame
  · rw [hmore, List.length_append] at hlt
    exact hlt (Nat.le_add_right _ _)
  · cases more with
    | nil => exact hlt (by rw [List.append_nil])
    | cons word more =>
      -- the line would hold the word after the first line, for which there is no room
      cases later with
      | nil => cases hlater
      | cons next later =>
        obtain ⟨w, next, rfl⟩ :=
          List.exists_cons_of_ne_nil (h.ne_nil next (List.mem_cons_of_mem _ List.mem_cons_self))
        obtain rfl : w = word := (List.cons.inj hlater).1
        have hroom := (List.isChain_cons_cons.1 h.full).1 w rfl
        have hfirst := h.ne_nil first List.mem_cons_self
        rcases hfits with hsize | hone
        · have hle := size_line_le before (first ++ [w]) more
          rw [size_line_concat hfirst] at hle
          simp only [List.append_assoc, List.singleton_append] at hle hsize
          omega
        · have hpos := List.length_pos_iff.2 hfirst
          simp only [List.length_append, List.length_cons] at hone
          omega

theorem flatten_ne_nil {first : List String} {later : List (List String)}
    (h : Greedy width (first :: later)) : first ++ later.flatten ≠ [] :=
  List.append_ne_nil_of_left_ne_nil (h.ne_nil first List.mem_cons_self) _

/-- Words are divided in one way. -/
theorem unique {division other : List (List String)} (h : Greedy width division)
    (hother : Greedy width other) (hsame : division.flatten = other.flatten) :
    division = other := by
  induction division generalizing other with
  | nil =>
    cases other with
    | nil => rfl
    | cons first later => exact absurd hsame.symm hother.flatten_ne_nil
  | cons first later ih =>
    cases other with
    | nil => exact absurd hsame h.flatten_ne_nil
    | cons first' later' =>
      rw [List.flatten_cons, List.flatten_cons] at hsame
      have hle : first.length ≤ first'.length :=
        hother.length_le [] (h.fits first List.mem_cons_self) hsame
      have hge : first'.length ≤ first.length :=
        h.length_le [] (hother.fits first' List.mem_cons_self) hsame.symm
      obtain ⟨rfl, hlater⟩ := List.append_inj hsame (Nat.le_antisymm hle hge)
      rw [ih h.tail hother.tail hlater]

/-- No lines hold the words, with others before them, in fewer lines: where these begin a line,
as much is left of the words at most. -/
theorem length_le_of_suffix {division other : List (List String)} (h : Greedy width division)
    (hother : ∀ words ∈ other, Fits width words) (hsuffix : division.flatten <:+ other.flatten) :
    division.length ≤ other.length := by
  induction division generalizing other with
  | nil => exact Nat.zero_le _
  | cons first later ih =>
    obtain ⟨before, hbefore⟩ := hsuffix
    rw [List.flatten_cons] at hbefore
    cases other with
    | nil => exact absurd (List.append_eq_nil_iff.1 hbefore).2 h.flatten_ne_nil
    | cons words other =>
      rw [← List.append_assoc] at hbefore
      have hle := h.length_le before (hother words List.mem_cons_self) hbefore.symm
      have hleft : later.flatten <:+ other.flatten := by
        refine List.suffix_of_suffix_length_le ⟨_, hbefore⟩ (List.suffix_append words _) ?_
        have hlength := congrArg List.length hbefore
        simp only [List.flatten_cons, List.length_append] at hlength hle
        omega
      exact Nat.succ_le_succ (ih h.tail (fun w hw => hother w (List.mem_cons_of_mem _ hw)) hleft)

/-- The last line takes one more word for which it has room. -/
theorem extend {done : List (List String)} {last : List String}
    (h : Greedy width (done ++ [last])) {word : String}
    (hroom : size (line last) + 1 + size word ≤ width) :
    Greedy width (done ++ [last ++ [word]]) where
  ne_nil words hwords := by
    rcases List.mem_append.1 hwords with hwords | hwords
    · exact h.ne_nil words (List.mem_append_left _ hwords)
    · rw [List.mem_singleton.1 hwords]
      exact List.concat_ne_nil word last
  fits words hwords := by
    rcases List.mem_append.1 hwords with hwords | hwords
    · exact h.fits words (List.mem_append_left _ hwords)
    · rw [List.mem_singleton.1 hwords, Fits, size_line_concat]
      · exact .inl hroom
      · exact h.ne_nil last (List.mem_append_right _ List.mem_cons_self)
  full := by
    obtain ⟨hdone, -, hlast⟩ := List.isChain_append.1 h.full
    refine List.isChain_append.2 ⟨hdone, .singleton _, ?_⟩
    rintro words hwords _ ⟨⟩ next hnext
    have hne := h.ne_nil last (List.mem_append_right _ List.mem_cons_self)
    rw [List.head?_append_of_ne_nil _ hne] at hnext
    exact hlast words hwords last rfl next hnext

/-- A word for which the last line has no room begins a new one. -/
theorem newLine {done : List (List String)} {last : List String}
    (h : Greedy width (done ++ [last])) {word : String}
    (hroom : width < size (line last) + 1 + size word) :
    Greedy width (done ++ [last] ++ [[word]]) where
  ne_nil words hwords := by
    rcases List.mem_append.1 hwords with hwords | hwords
    · exact h.ne_nil words hwords
    · rw [List.mem_singleton.1 hwords]
      exact List.cons_ne_nil word []
  fits words hwords := by
    rcases List.mem_append.1 hwords with hwords | hwords
    · exact h.fits words hwords
    · rw [List.mem_singleton.1 hwords]
      exact .inr rfl
  full := by
    refine List.isChain_append.2 ⟨h.full, .singleton _, ?_⟩
    rintro words hwords _ ⟨⟩ next ⟨⟩
    rw [List.getLast?_concat] at hwords
    cases hwords
    exact hroom

end Greedy

/-! ## The pass over the words -/

/-- The lines are those of a division: the lines done, and the one that words are put on. -/
structure Lines.Hold (width : Nat) (lines : Lines) (done : List (List String))
    (last : List String) : Prop where
  done_eq : lines.done = done.map line
  current_eq : lines.current = line last
  ne_empty : lines.current ≠ ""
  greedy : Greedy width (done ++ [last])

namespace Lines

variable {width : Nat} {lines : Lines} {done : List (List String)} {last : List String}

theorem hold_first (width : Nat) {word : String} (h : word ≠ "") :
    (add width {} word).Hold width [] [word] where
  done_eq := rfl
  current_eq := by simp [add, line]
  ne_empty := by simpa [add] using h
  greedy := ⟨by simp, by simp [Fits], .singleton _⟩

/-- One more word keeps the lines those of a division, which then has that word as well. -/
theorem Hold.add (h : lines.Hold width done last) {word : String} (hword : word ≠ "") :
    ∃ done' last', (lines.add width word).Hold width done' last' ∧
      done'.flatten ++ last' = done.flatten ++ last ++ [word] := by
  have hcurrent : lines.current.isEmpty = false := by simpa using h.ne_empty
  have hlast : last ≠ [] := h.greedy.ne_nil last (List.mem_append_right _ List.mem_cons_self)
  by_cases hroom : size lines.current + 1 + size word ≤ width
  · have hadd : lines.add width word = ⟨lines.done, lines.current ++ " " ++ word⟩ := by
      simp [Lines.add, hcurrent, hroom]
    refine ⟨done, last ++ [word], ⟨?_, ?_, ?_, ?_⟩, (List.append_assoc ..).symm⟩
    · rw [hadd, h.done_eq]
    · rw [hadd, h.current_eq, line_concat hlast]
    · simp [hadd]
    · exact h.greedy.extend (h.current_eq ▸ hroom)
  · have hadd : lines.add width word = ⟨lines.done ++ [lines.current], word⟩ := by
      simp [Lines.add, hcurrent, hroom]
    refine ⟨done ++ [last], [word], ⟨?_, ?_, ?_, ?_⟩, ?_⟩
    · rw [hadd, h.done_eq, h.current_eq, List.map_append, List.map_singleton]
    · simp [hadd, line]
    · simpa [hadd] using hword
    · exact h.greedy.newLine (h.current_eq ▸ Nat.lt_of_not_le hroom)
    · rw [List.flatten_append, List.flatten_singleton]

theorem Hold.foldl (h : lines.Hold width done last) {words : List String}
    (hwords : ∀ word ∈ words, word ≠ "") :
    ∃ done' last', (words.foldl (Lines.add width) lines).Hold width done' last' ∧
      done'.flatten ++ last' = done.flatten ++ last ++ words := by
  induction words generalizing lines done last with
  | nil => exact ⟨done, last, h, (List.append_nil _).symm⟩
  | cons word words ih =>
    obtain ⟨done', last', hadd, hflatten⟩ := h.add (hwords word List.mem_cons_self)
    obtain ⟨done'', last'', hfold, hall⟩ := ih hadd fun w hw => hwords w (List.mem_cons_of_mem _ hw)
    exact ⟨done'', last'', hfold, by rw [hall, hflatten, List.append_assoc, List.singleton_append]⟩

theorem Hold.all (h : lines.Hold width done last) : lines.all = (done ++ [last]).map line := by
  have hcurrent : lines.current.isEmpty = false := by simpa using h.ne_empty
  rw [Lines.all, hcurrent, h.done_eq, h.current_eq, List.map_append, List.map_singleton]
  rfl

end Lines

/-- Wrapping divides the pieces of a text greedily. -/
theorem exists_greedy_wrap (text : String) (width : Nat) :
    ∃ division, Greedy width division ∧ division.flatten = pieces text ∧
      wrap text width = "\n".intercalate (division.map line) := by
  have hwords : ∀ word ∈ pieces text, word ≠ "" := fun word h => (isWord_of_mem_pieces h).ne_empty
  rw [wrap, words_eq_pieces]
  cases hsplit : pieces text with
  | nil => exact ⟨[], ⟨nofun, nofun, .nil⟩, rfl, rfl⟩
  | cons word rest =>
    rw [hsplit] at hwords
    have hfirst := Lines.hold_first width (hwords word List.mem_cons_self)
    obtain ⟨done, last, hfold, hall⟩ :=
      hfirst.foldl fun w hw => hwords w (List.mem_cons_of_mem _ hw)
    refine ⟨done ++ [last], hfold.greedy, ?_, ?_⟩
    · rw [List.flatten_append, List.flatten_singleton, hall]
      rfl
    · rw [List.foldl_cons, hfold.all]

end StringReport.Wrap
