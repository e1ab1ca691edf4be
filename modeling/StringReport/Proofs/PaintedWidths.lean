import StringReport.Proofs.TameLines

/-!
# The columns of painted text

In a table a text is measured as a terminal reads it. There the sequences of a canvas take no
columns, and the texts between them are measured each for itself. So a text painted in one tone
takes the columns that it takes without, and so does one that is painted in part, if its
characters are printed one by one.
-/
namespace StringReport

namespace Terminal

/-- A text in which no sequence begins. -/
def Unescaped (text : List Char) : Prop := ∀ c ∈ text, c ≠ Character.escape

theorem splitBytes_size_append (text rest : List Char) :
    splitBytes (size text) (text ++ rest) = (text, rest) := by
  induction text with
  | nil => cases rest <;> rfl
  | cons c text ih =>
    have hsize : size (c :: text) = c.utf8Size + size text := by simp [size]
    have hpos := c.utf8Size_pos
    obtain ⟨n, hn⟩ : ∃ n, size (c :: text) = n + 1 := ⟨size (c :: text) - 1, by omega⟩
    rw [List.cons_append, hn, splitBytes, ← hn, hsize, Nat.add_sub_cancel_left, ih]
    exact Nat.succ_ne_zero n

theorem size_eq_zero {text : List Char} : size text = 0 ↔ text = [] := by
  cases text with
  | nil => simp [size]
  | cons c text =>
    have hpos := c.utf8Size_pos
    simp only [size, List.map_cons, List.sum_cons, reduceCtorEq, iff_false]
    omega

variable {style : String} (hstyle : style ∈ Canvas.ownSequences)

include hstyle

/-- A sequence of the canvas is complete with its last character. -/
theorem pass_ownSequence (drawn length : Nat) (rest : List Char) :
    pass .ground drawn length (style.toList ++ rest) =
      .toSequence .style .ground drawn (length + style.toList.length) := by
  simp only [Canvas.ownSequences, List.mem_cons, List.not_mem_nil, or_false] at hstyle
  rcases hstyle with rfl | rfl | rfl <;> rfl

theorem pass_append_ownSequence {text : List Char} (h : Unescaped text) (drawn length : Nat)
    (rest : List Char) :
    pass .ground drawn length (text ++ (style.toList ++ rest)) =
      .toSequence .style .ground (drawn + size text)
        (length + (text.length + style.toList.length)) := by
  induction text generalizing drawn length with
  | nil => simp [pass_ownSequence hstyle, size]
  | cons c text ih =>
    have hc := h c List.mem_cons_self
    have htext : Unescaped text := fun d hd => h d (List.mem_cons_of_mem _ hd)
    rw [List.cons_append, pass, step_ground hc]
    simp only [Effect.draw, if_true, ih htext]
    simp only [size, List.map_cons, List.sum_cons, List.length_cons]
    congr 1 <;> omega

/-- Up to a sequence of the canvas a text is drawn as it is. -/
theorem piecesFrom_append_ownSequence {text : List Char} (h : Unescaped text) (passes : Nat)
    (rest : List Char) :
    piecesFrom (passes + 1) .ground (text ++ (style.toList ++ rest)) =
      (if text = [] then [] else [.text text]) ++
        .sequence .style style.toList :: piecesFrom passes .ground rest := by
  have htake : (text ++ (style.toList ++ rest)).take (text.length + style.toList.length) =
      text ++ style.toList := by
    rw [← List.append_assoc, ← List.length_append, List.take_left]
  have hdrop : (text ++ (style.toList ++ rest)).drop (text.length + style.toList.length) =
      rest := by
    rw [← List.append_assoc, ← List.length_append, List.drop_left]
  simp only [piecesFrom, pass_append_ownSequence hstyle h, Nat.zero_add, htake, hdrop,
    splitBytes_size_append]
  split <;> rfl

omit hstyle

theorem piecesFrom_of_unescaped {text : List Char} (h : Unescaped text) (passes : Nat) :
    piecesFrom (passes + 1) .ground text = if text = [] then [] else [.text text] := by
  have hrest : piecesFrom passes .ground [] = [] := by cases passes <;> rfl
  simp only [piecesFrom, pass_of_forall_ne h, Nat.zero_add, splitBytes_size, hrest, size_eq_zero]

/-- The text of a piece that is drawn. -/
def Piece.drawn? : Piece → Option (List Char)
  | .text characters => some characters
  | .sequence .. => none

theorem texts_eq (text : List Char) : texts text = (pieces text).filterMap Piece.drawn? := rfl

theorem totalWidth_text_append (text : List Char) (later : List Piece) :
    totalWidth (((if text = [] then [] else [Piece.text text]) ++ later).filterMap Piece.drawn?) =
      textWidth text + totalWidth (later.filterMap Piece.drawn?) := by
  split
  · next h => rw [h, textWidth_nil, Nat.zero_add, List.nil_append]
  · rfl

theorem totalWidth_sequence (order : Order) (sequence : List Char) (later : List Piece) :
    totalWidth ((Piece.sequence order sequence :: later).filterMap Piece.drawn?) =
      totalWidth (later.filterMap Piece.drawn?) := rfl

end Terminal

open Terminal

/-- The columns of a text of which one part is painted. -/
theorem tableWidth_enclosed {style : String} (hstyle : style ∈ Canvas.ownSequences)
    {before text after : String} (hbefore : Unescaped before.toList)
    (htext : Unescaped text.toList) (hafter : Unescaped after.toList) :
    tableWidth (before ++ (style ++ text ++ plainStyle) ++ after) =
      textWidth before.toList + textWidth text.toList + textWidth after.toList := by
  have hback : plainStyle ∈ Canvas.ownSequences := by decide
  have hchars : (before ++ (style ++ text ++ plainStyle) ++ after).toList =
      before.toList ++ (style.toList ++ (text.toList ++ (plainStyle.toList ++ after.toList))) := by
    simp only [String.toList_append, List.append_assoc]
  -- two sequences and the text after them are read in three passes
  obtain ⟨passes, hpasses⟩ : ∃ passes, (before.toList ++ (style.toList ++ (text.toList ++
      (plainStyle.toList ++ after.toList)))).length = passes + 1 + 1 + 1 := by
    have hlength : plainStyle.toList.length = 4 := by decide
    refine ⟨before.toList.length + style.toList.length + text.toList.length +
      after.toList.length + 1, ?_⟩
    simp only [List.length_append, hlength]
    omega
  have hpieces := piecesFrom_append_ownSequence hstyle hbefore (passes + 1 + 1)
    (text.toList ++ (plainStyle.toList ++ after.toList))
  rw [piecesFrom_append_ownSequence hback htext, piecesFrom_of_unescaped hafter, ← hpasses]
    at hpieces
  have hlast := totalWidth_text_append after.toList []
  rw [List.append_nil] at hlast
  rw [tableWidth, texts_eq, hchars, pieces, hpieces]
  split
  · next hnone => simp at hnone
  · rw [totalWidth_text_append, totalWidth_sequence, totalWidth_text_append, totalWidth_sequence,
      hlast, ← Nat.add_assoc]
    rfl

/-- A text of characters between the space and the last of ASCII. -/
def Printable (text : List Char) : Prop := ∀ c ∈ text, 0x20 ≤ c.toNat ∧ c.toNat < 0x7f

instance (text : List Char) : Decidable (Printable text) :=
  List.decidableBAll _ text

@[simp] theorem printable_append {a b : List Char} :
    Printable (a ++ b) ↔ Printable a ∧ Printable b := by
  simp only [Printable, List.mem_append]
  exact ⟨fun h => ⟨fun c hc => h c (Or.inl hc), fun c hc => h c (Or.inr hc)⟩,
    fun h c hc => hc.elim (h.1 c) (h.2 c)⟩

/-- A printable text without a space. -/
def Visible (text : List Char) : Prop := ∀ c ∈ text, 0x21 ≤ c.toNat ∧ c.toNat < 0x7f

instance (text : List Char) : Decidable (Visible text) :=
  List.decidableBAll _ text

theorem Visible.printable {text : List Char} (h : Visible text) : Printable text := fun c hc =>
  ⟨Nat.le_of_lt (h c hc).1, (h c hc).2⟩

@[simp] theorem visible_append {a b : List Char} :
    Visible (a ++ b) ↔ Visible a ∧ Visible b := by
  simp only [Visible, List.mem_append]
  exact ⟨fun h => ⟨fun c hc => h c (Or.inl hc), fun c hc => h c (Or.inr hc)⟩,
    fun h c hc => hc.elim (h.1 c) (h.2 c)⟩

theorem visible_digitChar (d : Nat) :
    0x21 ≤ (Nat.digitChar d).toNat ∧ (Nat.digitChar d).toNat < 0x7f := by
  by_cases h : d < 16
  · have hall : ∀ e < 16, 0x21 ≤ (Nat.digitChar e).toNat ∧ (Nat.digitChar e).toNat < 0x7f := by
      decide
    exact hall d h
  · rw [Nat.digitChar_eq_star.2 (Nat.le_of_not_lt h)]
    decide

theorem visible_toDigits {base : Nat} (hbase : 1 < base) (n : Nat) :
    Visible (Nat.toDigits base n) := by
  intro c hc
  obtain ⟨d, -, rfl⟩ := exists_digit_of_mem_toDigits hbase n hc
  exact visible_digitChar d

theorem visible_toString (n : Nat) : Visible (toString n).toList := by
  simpa using visible_toDigits (by decide) n

theorem visible_address (value : UInt64) : Visible (Hex.address value).toList := by
  simp only [Hex.address, String.toList_append, String.toList_ofList, visible_append]
  exact ⟨by decide, visible_toDigits (by decide) _⟩

theorem printable_address (value : UInt64) : Printable (Hex.address value).toList :=
  (visible_address value).printable

/-- The count that follows a label is printed character by character. -/
theorem printable_labelCount (count : Nat) :
    Printable (" (" ++ toString count ++ ")").toList := by
  have hdigits : Printable (toString count).toList := (visible_toString count).printable
  simp only [String.toList_append, printable_append, hdigits, and_true]
  exact ⟨by decide, by decide⟩

theorem Printable.inert {text : List Char} (h : Printable text) : Inert text := fun c hc =>
  Character.isObeyed_of_printable (h c hc).1 (h c hc).2

theorem Inert.unescaped {text : List Char} (h : Inert text) : Unescaped text := by
  rintro c hc rfl
  exact h.escape_notMem hc

/-- A shown character begins no sequence in either reading. -/
theorem Inert.isIntroducer {text : List Char} (h : Inert text) :
    ∀ c ∈ text, ControlSequence.isIntroducer c = false := by
  intro c hc
  have hshown := h c hc
  simp only [Character.isObeyed, Character.isControl, Bool.or_eq_false_iff,
    Bool.and_eq_false_iff, decide_eq_false_iff_not] at hshown
  simp only [ControlSequence.isIntroducer, Bool.or_eq_false_iff, decide_eq_false_iff_not,
    beq_eq_false_iff_ne]
  refine ⟨?_, by omega⟩
  rintro rfl
  exact h.escape_notMem hc

namespace Canvas

variable (canvas : Canvas)

theorem paint_push (t : StyledText) (text : String) (tone : Tone) :
    canvas.paint (t.push text tone) = canvas.paint t ++ canvas.paint (.single tone text) := by
  apply String.toList_inj.1
  unfold StyledText.single StyledText.push
  split
  · simp [paint]
  · simp [paint, String.toList_join]

theorem paint_single {text : String} (h : text ≠ "") (tone : Tone) :
    canvas.paint (.single tone text) = canvas.paintSpan text tone := by
  have hspans : (StyledText.single tone text).spans = [⟨text, tone⟩] := by
    simp [StyledText.single, StyledText.push, h]
  rw [paint, hspans]
  simp

/-- A span is drawn bare, or between two sequences of the canvas. -/
theorem paintSpan_cases (text : String) (tone : Tone) :
    canvas.paintSpan text tone = text ∨
      ∃ style ∈ ownSequences, canvas.paintSpan text tone = style ++ text ++ plainStyle := by
  cases tone with
  | plain => exact Or.inl rfl
  | accent =>
    simp only [paintSpan, Tone.style?]
    split
    · exact Or.inr ⟨_, by decide, rfl⟩
    · exact Or.inl rfl
  | value =>
    simp only [paintSpan, Tone.style?]
    split
    · exact Or.inr ⟨_, by decide, rfl⟩
    · exact Or.inl rfl

theorem paint_single_cases (tone : Tone) (text : String) :
    canvas.paint (.single tone text) = text ∨
      ∃ style ∈ ownSequences, canvas.paint (.single tone text) = style ++ text ++ plainStyle := by
  by_cases h : text = ""
  · subst h
    exact Or.inl rfl
  · rw [paint_single canvas h]
    exact canvas.paintSpan_cases text tone

/-- A painted text in one tone takes the columns of the text by itself. -/
theorem tableWidth_paint_single (tone : Tone) {text : String}
    (h : ∀ c ∈ text.toList, ControlSequence.isIntroducer c = false) :
    tableWidth (canvas.paint (.single tone text)) = displayWidth text := by
  have htext : Unescaped text.toList := by
    rintro c hc rfl
    exact absurd (h _ hc) (by decide)
  rcases canvas.paint_single_cases tone text with hpaint | ⟨style, hstyle, hpaint⟩
  · rw [hpaint, tableWidth_eq_displayWidth h]
  · have hempty : Unescaped "".toList := inert_nil.unescaped
    have hwidth := tableWidth_enclosed hstyle hempty htext hempty
    rw [String.empty_append, String.append_empty] at hwidth
    rw [hpaint, hwidth, displayWidth_eq_textWidth h]
    simp

/-- A label with a part in another tone takes a column for each character. -/
theorem tableWidth_paint_label (tone : Tone) {before text after : String}
    (hbefore : Printable before.toList) (htext : Printable text.toList)
    (hafter : Printable after.toList) :
    tableWidth (canvas.paint (((StyledText.plain before).push text tone).push after .plain)) =
      before.length + text.length + after.length := by
  rw [paint_push, paint_push, StyledText.plain_eq, paint_single_plain, paint_single_plain]
  rcases canvas.paint_single_cases tone text with hpaint | ⟨style, hstyle, hpaint⟩
  · have hall : Printable (before ++ text ++ after).toList := by
      simp only [String.toList_append, printable_append, hbefore, htext, hafter, and_self]
    rw [hpaint, tableWidth_eq_textWidth hall.inert.unescaped, textWidth_of_printable hall]
    simp only [String.toList_append, List.length_append, String.length_toList]
  · rw [hpaint, tableWidth_enclosed hstyle hbefore.inert.unescaped htext.inert.unescaped
      hafter.inert.unescaped, textWidth_of_printable hbefore, textWidth_of_printable htext,
      textWidth_of_printable hafter]
    simp only [String.length_toList]

end Canvas
end StringReport
