import StringReport.Proofs.BlockHeights

/-!
# Tones on the lines of a text

A text is its characters with their tones; spans are no more than the way in which these are held.
To split it into lines is to split that list at its line feeds. These may stand anywhere in a span,
and what one span leaves of a line is continued by the spans after it, so a line can have parts of
many spans, each in its own tone.
-/
namespace StringReport

/-! ## Lists cut at some of their entries -/

section Cut

variable {α β : Type} (p : α → Bool)

/-- What is left of a list that is cut are the entries that are not cut at, in their order. -/
theorem flatten_splitOnP (xs : List α) :
    (xs.splitOnP p).flatten = xs.filter fun x => !p x := by
  induction xs with
  | nil => simp
  | cons x xs ih =>
    rw [List.splitOnP_cons_eq_if_modifyHead]
    cases hx : p x with
    | true => simp [hx, ih]
    | false =>
      obtain ⟨first, later, hsplit⟩ := List.exists_cons_of_ne_nil (List.splitOnP_ne_nil p xs)
      rw [hsplit, List.flatten_cons] at ih
      simp [hx, hsplit, ih]

theorem map_splitOnP (q : β → Bool) (f : α → β) (xs : List α) :
    (xs.splitOnP fun x => q (f x)).map (List.map f) = (xs.map f).splitOnP q := by
  induction xs with
  | nil => simp
  | cons x xs ih =>
    rw [List.map_cons, List.splitOnP_cons_eq_if_modifyHead, List.splitOnP_cons_eq_if_modifyHead,
      ← ih]
    cases hsplit : xs.splitOnP fun x => q (f x) <;> split <;> simp

end Cut

namespace StyledText

/-- Whether a character is a line feed, whatever its tone. -/
def isFeed (c : Char × Tone) : Bool := c.1 == '\n'

/-- No span of a text is empty. -/
def Dense (t : StyledText) : Prop := ∀ span ∈ t.spans, span.text ≠ ""

@[simp] theorem characters_empty : empty.characters = [] := rfl

theorem toList_toPlain (t : StyledText) : t.toPlain.toList = t.characters.map Prod.fst := by
  simp [toPlain, characters, String.toList_join, List.flatMap_map, List.map_flatMap,
    Function.comp_def]

/-! ## Pushing -/

theorem characters_ofSpans (pushed : List Span) :
    (ofSpans pushed).characters =
      pushed.flatMap fun span => span.text.toList.map (·, span.tone) := by
  have hfold (start : StyledText) :
      (pushed.foldl (fun t span => t.push span.text span.tone) start).characters =
        start.characters ++ pushed.flatMap fun span => span.text.toList.map (·, span.tone) := by
    induction pushed generalizing start with
    | nil => simp
    | cons span pushed ih =>
      rw [List.foldl_cons, ih, characters_push, List.flatMap_cons, List.append_assoc]
  exact hfold empty

theorem Dense.push {t : StyledText} (h : t.Dense) (text : String) (tone : Tone) :
    (t.push text tone).Dense := by
  unfold StyledText.push
  split
  · exact h
  · next htext =>
    exact List.forall_mem_append.2 ⟨h, List.forall_mem_singleton.2 htext⟩

theorem dense_ofSpans (pushed : List Span) : (ofSpans pushed).Dense := by
  have hfold (start : StyledText) (h : start.Dense) :
      (pushed.foldl (fun t span => t.push span.text span.tone) start).Dense := by
    induction pushed generalizing start with
    | nil => exact h
    | cons span pushed ih => exact ih _ (h.push span.text span.tone)
  exact hfold empty nofun

/-! ## Splitting -/

theorem characters_prepend (part : List Char) (tone : Tone) (t : StyledText) :
    (prepend part tone t).characters = part.map (·, tone) ++ t.characters := by
  unfold prepend
  split
  · next h => simp [h]
  · simp [characters]

theorem Dense.prepend {t : StyledText} (h : t.Dense) (part : List Char) (tone : Tone) :
    (prepend part tone t).Dense := by
  unfold StyledText.prepend
  split
  · exact h
  · next hpart => exact List.forall_mem_cons.2 ⟨by simpa using hpart, h⟩

/-- The lines of a text in the course of splitting, each as its characters. -/
def lineCharacters (lines : StyledText × List StyledText) : List (List (Char × Tone)) :=
  lines.1.characters :: lines.2.map characters

theorem lineCharacters_graft_cons (tone : Tone) (c : Char) (first : List Char)
    (parts : List (List Char)) (rest : StyledText × List StyledText) :
    lineCharacters (graft tone (c :: first) parts rest) =
      (lineCharacters (graft tone first parts rest)).modifyHead ((c, tone) :: ·) := by
  cases parts <;> simp [graft, lineCharacters, characters_prepend]

/-- The parts of a span run into the lines of what follows it. -/
theorem lineCharacters_graft (tone : Tone) (text : List Char)
    {rest : StyledText × List StyledText} {later : List (Char × Tone)}
    (hrest : lineCharacters rest = later.splitOnP isFeed) :
    lineCharacters (graft tone (splitOn '\n' text).1 (splitOn '\n' text).2 rest) =
      (text.map (·, tone) ++ later).splitOnP isFeed := by
  induction text with
  | nil => exact hrest
  | cons c text ih =>
    rw [List.map_cons, List.cons_append, List.splitOnP_cons_eq_if_modifyHead, ← ih, splitOn]
    by_cases hc : c = '\n'
    · simp [hc, isFeed, graft, lineCharacters, characters_prepend]
    · simp [hc, isFeed, lineCharacters_graft_cons]

/-- The lines of a text are its characters cut at the line feeds, in their tones. -/
theorem map_characters_lines (t : StyledText) :
    t.lines.map characters = t.characters.splitOnP isFeed := by
  obtain ⟨spans⟩ := t
  show lineCharacters (splitSpans spans) = _
  induction spans with
  | nil => rfl
  | cons span spans ih =>
    exact lineCharacters_graft span.tone span.text.toList ih

theorem dense_graft (tone : Tone) (first : List Char) (parts : List (List Char))
    {rest : StyledText × List StyledText} (h : ∀ line ∈ rest.1 :: rest.2, line.Dense) :
    ∀ line ∈ (graft tone first parts rest).1 :: (graft tone first parts rest).2,
      line.Dense := by
  have hempty : empty.Dense := nofun
  induction parts generalizing first with
  | nil =>
    obtain ⟨hline, hlater⟩ := List.forall_mem_cons.1 h
    exact List.forall_mem_cons.2 ⟨hline.prepend first tone, hlater⟩
  | cons next parts ih => exact List.forall_mem_cons.2 ⟨hempty.prepend first tone, ih next⟩

theorem dense_lines (t : StyledText) : ∀ line ∈ t.lines, line.Dense := by
  obtain ⟨spans⟩ := t
  show ∀ line ∈ (splitSpans spans).1 :: (splitSpans spans).2, line.Dense
  induction spans with
  | nil => exact List.forall_mem_singleton.2 nofun
  | cons span spans ih => exact dense_graft span.tone _ _ ih

theorem intercalate_lines (t : StyledText) :
    "\n".intercalate (t.lines.map toPlain) = t.toPlain := by
  have hlines : (t.lines.map toPlain).map String.toList =
      (t.toPlain.toList).splitOn '\n' := by
    have hplain := map_splitOnP (· == '\n') Prod.fst t.characters
    rw [List.splitOn_eq_splitOnP, toList_toPlain, ← hplain]
    show _ = (t.characters.splitOnP isFeed).map (List.map Prod.fst)
    rw [← map_characters_lines, List.map_map, List.map_map]
    exact List.map_congr_left fun line _ => toList_toPlain line
  apply String.toList_inj.1
  rw [String.toList_intercalate, hlines]
  exact List.intercalate_splitOn '\n'

/-- Whatever is pushed, the lines of a text are its characters cut at the line feeds: there is one
line more than there are line feeds, on the lines stand all other characters in their order, each
in its tone, and with line feeds between them the lines are the text again. No span is empty, of
the text or of a line. -/
theorem lines_ofSpans (pushed : List Span) :
    let text := ofSpans pushed
    text.characters = pushed.flatMap (fun span => span.text.toList.map (·, span.tone)) ∧
    text.lines.map characters = text.characters.splitOnP (fun c => c.1 == '\n') ∧
    text.lines.length = text.characters.countP (fun c => c.1 == '\n') + 1 ∧
    (∀ line ∈ text.lines, ∀ c ∈ line.characters, c.1 ≠ '\n') ∧
    text.lines.flatMap characters = text.characters.filter (fun c => c.1 != '\n') ∧
    "\n".intercalate (text.lines.map toPlain) = text.toPlain ∧
    text.toPlain.toList = text.characters.map Prod.fst ∧
    text.Dense ∧ ∀ line ∈ text.lines, line.Dense := by
  intro text
  have hsplit := map_characters_lines text
  have hcount : text.characters.countP (fun c => c.1 == '\n') = lineFeeds text.toPlain := by
    rw [lineFeeds, toList_toPlain, List.count, List.countP_map]
    rfl
  refine ⟨characters_ofSpans pushed, hsplit, ?_, ?_, ?_, intercalate_lines text,
    toList_toPlain text, dense_ofSpans pushed, dense_lines text⟩
  · rw [hcount, length_lines]
  · intro line hline c hc heq
    have hfeeds := lineFeeds_eq_zero.1 (lineFeeds_of_mem_lines hline)
    rw [toList_toPlain] at hfeeds
    exact hfeeds (heq ▸ List.mem_map_of_mem hc)
  · rw [List.flatMap_def, hsplit, flatten_splitOnP]
    rfl

example : (ofSpans [⟨"\na", .accent⟩, ⟨"", .value⟩, ⟨"b\n", .value⟩]).lines =
    [empty, ⟨[⟨"a", .accent⟩, ⟨"b", .value⟩]⟩, empty] := by decide

end StyledText
end StringReport
