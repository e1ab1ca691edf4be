import StringReport.Proofs.BlockHeights
import StringReport.Proofs.PaintedWidths

/-!
# Painted cells of several lines

A line that is painted leaves no style on: each sequence of the canvas is taken back before the
next one begins. So where the text of a cell opens no sequence of its own, there is nothing to
carry from line to line, and a cell of several lines is drawn with its lines as they are painted.
-/
namespace StringReport

open Terminal

/-! ## Styles that leave nothing to write -/

namespace Style

/-- A style in which nothing is on, be it that everything has been taken back. -/
def IsBare (style : Style) : Prop := style = plain ∨ style = { plain with reset := true }

theorem IsBare.opening_eq {style : Style} (h : style.IsBare) : style.opening = "" := by
  rcases h with rfl | rfl <;> decide

theorem IsBare.closing_eq {style : Style} (h : style.IsBare) : style.closing = "" := by
  rcases h with rfl | rfl <;> decide

/-- Lines after which nothing is on are carried as they are. -/
theorem carry_of_bare {lines : List String}
    (h : ∀ line ∈ lines, ∀ style : Style, style.IsBare → (style.after line).IsBare)
    {style : Style} (hstyle : style.IsBare) : style.carry lines = lines := by
  induction lines generalizing style with
  | nil => rfl
  | cons line lines ih =>
    obtain ⟨hline, hlines⟩ := List.forall_mem_cons.1 h
    have hnext := hline style hstyle
    rw [carry, ih hlines hnext, hstyle.opening_eq, hnext.closing_eq, String.empty_append,
      String.append_empty]
    split
    · next hempty => rw [hempty]
    · rfl

/-- The style after some pieces of a text. -/
def afterPieces (style : Style) (pieces : List Piece) : Style :=
  (pieces.filterMap fun
    | .sequence .style characters => some characters
    | _ => none).foldl (fun style sequence => style.carryOut (codes sequence)) style

theorem afterPieces_text (style : Style) (text : List Char) (later : List Piece) :
    style.afterPieces ((if text = [] then [] else [.text text]) ++ later) =
      style.afterPieces later := by
  split <;> rfl

theorem afterPieces_sequence (style : Style) (sequence : List Char) (later : List Piece) :
    style.afterPieces (.sequence .style sequence :: later) =
      (style.carryOut (codes sequence)).afterPieces later := rfl

/-- What a text leaves on is told by its passes alone. -/
theorem after_eq_afterPieces (style : Style) (text : String) :
    style.after text =
      style.afterPieces (piecesFrom text.toList.length .ground text.toList) := by
  show style.afterPieces (pieces text.toList) = _
  unfold pieces
  split
  · next hnone =>
    rw [hnone]
    split <;> rfl
  · rfl

end Style

/-! ## Painted texts -/

namespace Canvas

variable (canvas : Canvas)

/-- The induction is on the spans; before them stands what has been read of their line since the
last sequence. -/
theorem isBare_afterPieces_paint {spans : List Span}
    (h : ∀ span ∈ spans, Terminal.Unescaped span.text.toList) {text : List Char}
    (htext : Terminal.Unescaped text) {passes : Nat}
    (hpasses : (text ++ (canvas.paint ⟨spans⟩).toList).length ≤ passes) {style : Style}
    (hstyle : style.IsBare) :
    (style.afterPieces
      (piecesFrom passes .ground (text ++ (canvas.paint ⟨spans⟩).toList))).IsBare := by
  induction spans generalizing text passes style with
  | nil =>
    have hpaint : (canvas.paint ⟨[]⟩).toList = [] := rfl
    rw [hpaint, List.append_nil]
    cases passes with
    | zero => exact hstyle
    | succ passes =>
      have hpieces := style.afterPieces_text text []
      rw [List.append_nil] at hpieces
      rw [piecesFrom_of_unescaped htext, hpieces]
      exact hstyle
  | cons span spans ih =>
    obtain ⟨hspan, hspans⟩ := List.forall_mem_cons.1 h
    have hpaint : (canvas.paint ⟨span :: spans⟩).toList =
        (canvas.paintSpan span.text span.tone).toList ++ (canvas.paint ⟨spans⟩).toList := by
      simp [paint, String.toList_join]
    rw [hpaint] at hpasses ⊢
    rcases canvas.paintSpan_cases span.text span.tone with hbare | ⟨sequence, hown, hpainted⟩
    · rw [hbare, ← List.append_assoc] at hpasses ⊢
      have hjoined : Terminal.Unescaped (text ++ span.text.toList) := fun c hc =>
        (List.mem_append.1 hc).elim (htext c) (hspan c)
      exact ih hspans hjoined hpasses hstyle
    · have hback : plainStyle ∈ ownSequences := by decide
      have hreset : (style.carryOut (Style.codes sequence.toList)).carryOut
          (Style.codes plainStyle.toList) = { Style.plain with reset := true } := rfl
      rw [hpainted, String.toList_append, String.toList_append, List.append_assoc,
        List.append_assoc] at hpasses ⊢
      have hlength : plainStyle.toList.length = 4 := by decide
      -- one pass for each of the two sequences
      obtain ⟨left, hleft⟩ : ∃ left, passes = left + 1 + 1 := by
        simp only [List.length_append, hlength] at hpasses
        exact ⟨passes - 2, by omega⟩
      subst hleft
      rw [piecesFrom_append_ownSequence hown htext, Style.afterPieces_text,
        Style.afterPieces_sequence, piecesFrom_append_ownSequence hback hspan,
        Style.afterPieces_text, Style.afterPieces_sequence, hreset]
      have hnil : Terminal.Unescaped [] := by simp [Terminal.Unescaped]
      refine ih hspans hnil ?_ (Or.inr rfl)
      simp only [List.length_append, hlength, List.nil_append] at hpasses ⊢
      omega

/-- A painted line leaves nothing on. -/
theorem isBare_after_paint {t : StyledText}
    (h : ∀ span ∈ t.spans, Terminal.Unescaped span.text.toList) {style : Style}
    (hstyle : style.IsBare) : (style.after (canvas.paint t)).IsBare := by
  have hnil : Terminal.Unescaped [] := by simp [Terminal.Unescaped]
  rw [Style.after_eq_afterPieces]
  exact canvas.isBare_afterPieces_paint h hnil (Nat.le_refl _) hstyle

end Canvas

/-! ## Lines of a text -/

namespace StyledText

/-- The characters of all spans have a property. -/
def Holds (P : Char → Prop) (t : StyledText) : Prop :=
  ∀ span ∈ t.spans, ∀ c ∈ span.text.toList, P c

variable {P : Char → Prop}

theorem holds_iff {t : StyledText} : t.Holds P ↔ ∀ c ∈ t.toPlain.toList, P c := by
  simp only [Holds, toPlain, String.toList_join, List.flatMap_map, List.mem_flatMap]
  constructor
  · rintro h c ⟨span, hspan, hc⟩
    exact h span hspan c hc
  · exact fun h span hspan c hc => h c ⟨span, hspan, hc⟩

theorem Holds.prepend {t : StyledText} (h : t.Holds P) {part : List Char}
    (hpart : ∀ c ∈ part, P c) (tone : Tone) : (prepend part tone t).Holds P := by
  unfold StyledText.prepend
  split
  · exact h
  · intro span hspan
    rcases List.mem_cons.1 hspan with rfl | hspan
    · simpa using hpart
    · exact h span hspan

theorem holds_graft (tone : Tone) {first : List Char} {parts : List (List Char)}
    {rest : StyledText × List StyledText} (hfirst : ∀ c ∈ first, P c)
    (hparts : ∀ part ∈ parts, ∀ c ∈ part, P c)
    (hrest : ∀ line ∈ rest.1 :: rest.2, line.Holds P) :
    ∀ line ∈ (graft tone first parts rest).1 :: (graft tone first parts rest).2,
      line.Holds P := by
  have hempty : empty.Holds P := nofun
  induction parts generalizing first with
  | nil =>
    obtain ⟨hline, hlater⟩ := List.forall_mem_cons.1 hrest
    exact List.forall_mem_cons.2 ⟨hline.prepend hfirst tone, hlater⟩
  | cons next parts ih =>
    obtain ⟨hnext, hparts⟩ := List.forall_mem_cons.1 hparts
    exact List.forall_mem_cons.2 ⟨hempty.prepend hfirst tone, ih hnext hparts⟩

/-- What holds of the characters of a text holds of those of its lines. -/
theorem Holds.lines {t : StyledText} (h : t.Holds P) : ∀ line ∈ t.lines, line.Holds P := by
  obtain ⟨spans⟩ := t
  show ∀ line ∈ (splitSpans spans).1 :: (splitSpans spans).2, line.Holds P
  induction spans with
  | nil =>
    intro line hline
    rw [List.mem_singleton.1 hline]
    exact nofun
  | cons span spans ih =>
    obtain ⟨hspan, hspans⟩ := List.forall_mem_cons.1 h
    have hparts : ∀ part ∈ partsOn '\n' span.text.toList, ∀ c ∈ part, P c :=
      fun part hpart c hc => hspan c ((exists_mem_partsOn '\n' _ c).1 ⟨part, hpart, hc⟩).1
    obtain ⟨hfirst, hlater⟩ := List.forall_mem_cons.1 hparts
    exact holds_graft span.tone hfirst hlater (ih hspans)

end StyledText

namespace Canvas

/-- A cell that opens no sequence of its own is drawn with its lines as they are painted. -/
theorem paintCell_of_unescaped (canvas : Canvas) {cell : StyledText}
    (h : cell.Holds (· ≠ Character.escape)) : canvas.paintCell cell = canvas.paintLines cell := by
  unfold paintCell Cell.ofLines
  split
  · rfl
  · apply Style.carry_of_bare
    · intro painted hpainted style hstyle
      obtain ⟨line, hline, rfl⟩ := List.mem_map.1 hpainted
      exact canvas.isBare_after_paint (h.lines line hline) hstyle
    · exact Or.inl rfl

end Canvas
end StringReport
