import StringReport.Proofs.BlockHeights

/-!
# Lines that a terminal can be trusted with

A line is tame if a terminal obeys nothing in it but the sequences by which a canvas paints.
Tame lines are put together and stripped to tame lines, so a block is drawn tamely if its
texts are inert. A text of several lines in a grid must be free of tones besides: the style of
a painted line would be carried on to the next by a sequence of another kind.
-/
namespace StringReport

namespace Canvas

/-- The sequences that a canvas with colors writes. -/
def ownSequences : List String := ["\x1b[36m", "\x1b[32m", "\x1b[0m"]

/-- A text of characters that are only shown, and of the sequences of a canvas. -/
inductive Tame (canvas : Canvas) : List Char → Prop
  | nil : Tame canvas []
  | shown {c : Char} {text : List Char} :
    Character.isObeyed c = false → Tame canvas text → Tame canvas (c :: text)
  | styled {style : String} {text : List Char} :
    canvas.colors = true → style ∈ ownSequences → Tame canvas text →
      Tame canvas (style.toList ++ text)

variable {canvas : Canvas}

theorem Tame.append {a b : List Char} (ha : canvas.Tame a) (hb : canvas.Tame b) :
    canvas.Tame (a ++ b) := by
  induction ha with
  | nil => exact hb
  | shown hc _ ih => exact .shown hc ih
  | styled hcolors hstyle _ ih =>
    rw [List.append_assoc]
    exact .styled hcolors hstyle ih

theorem tame_of_inert {text : List Char} (h : Inert text) : canvas.Tame text := by
  induction text with
  | nil => exact .nil
  | cons c text ih =>
    obtain ⟨hc, htext⟩ := inert_cons.1 h
    exact .shown hc (ih htext)

theorem tame_ownSequence (hcolors : canvas.colors = true) {style : String}
    (h : style ∈ ownSequences) : canvas.Tame style.toList := by
  have htame := Tame.styled hcolors h .nil
  rwa [List.append_nil] at htame

/-- Without colors, a tame text is one that is only shown. -/
theorem Tame.inert {text : List Char} (h : canvas.Tame text) (hcolors : canvas.colors = false) :
    Inert text := by
  induction h with
  | nil => exact inert_nil
  | shown hc _ ih => exact inert_cons.2 ⟨hc, ih⟩
  | styled hcolors' => rw [hcolors] at hcolors'; cases hcolors'

theorem getLast?_ownSequence : ∀ style ∈ ownSequences, style.toList.getLast? ≠ some ' ' := by
  decide

/-- A space at the end is no part of a sequence. -/
theorem Tame.of_append_space {text : List Char} (h : canvas.Tame (text ++ [' '])) :
    canvas.Tame text := by
  generalize hfull : text ++ [' '] = full at h
  induction h generalizing text with
  | nil => simp at hfull
  | @shown c rest hc hrest ih =>
    cases text with
    | nil => exact .nil
    | cons d text =>
      obtain ⟨rfl, rfl⟩ := List.cons_eq_cons.1 hfull
      exact .shown hc (ih rfl)
  | @styled style rest hcolors hstyle hrest ih =>
    rcases List.eq_nil_or_concat rest with rfl | ⟨front, last, rfl⟩
    · have hlast := getLast?_ownSequence style hstyle
      rw [List.append_nil] at hfull
      rw [← hfull, List.getLast?_concat] at hlast
      exact absurd rfl hlast
    · rw [List.concat_eq_append, ← List.append_assoc] at hfull
      obtain ⟨rfl, hspace⟩ := List.append_inj' hfull rfl
      exact .styled hcolors hstyle (ih (by rw [List.concat_eq_append, hspace]))

theorem tame_lineProperty (canvas : Canvas) : LineProperty canvas.Tame where
  nil := .nil
  append := .append
  mark hc := by
    refine .shown ?_ .nil
    revert hc
    simp only [List.mem_cons, List.not_mem_nil, or_false]
    rintro (rfl | rfl | rfl | rfl) <;> decide
  strip {a n} h := by
    induction n with
    | zero => rwa [List.replicate_zero, List.append_nil] at h
    | succ n ih =>
      rw [List.replicate_succ', ← List.append_assoc] at h
      exact ih h.of_append_space

/-! ## Painting -/

theorem tame_paintSpan {text : String} (h : Inert text.toList) (tone : Tone) :
    canvas.Tame (canvas.paintSpan text tone).toList := by
  have htext : canvas.Tame text.toList := tame_of_inert h
  have hpainted (hcolors : canvas.colors = true) {style : String} (hstyle : style ∈ ownSequences) :
      canvas.Tame (style ++ text ++ plainStyle).toList := by
    have hback : plainStyle ∈ ownSequences := by decide
    rw [String.toList_append, String.toList_append]
    exact ((tame_ownSequence hcolors hstyle).append htext).append (tame_ownSequence hcolors hback)
  cases tone with
  | plain => exact htext
  | accent =>
    simp only [paintSpan, Tone.style?]
    split
    · next hcolors => exact hpainted hcolors (by decide)
    · exact htext
  | value =>
    simp only [paintSpan, Tone.style?]
    split
    · next hcolors => exact hpainted hcolors (by decide)
    · exact htext

/-- Painting shows a text as it is. -/
theorem infix_paint_single (canvas : Canvas) (tone : Tone) (text : String) :
    text.toList <:+: (canvas.paint (.single tone text)).toList := by
  have hspan : text.toList <:+: (canvas.paintSpan text tone).toList := by
    unfold paintSpan
    split
    · split
      · rw [String.toList_append, String.toList_append]
        exact ⟨_, _, rfl⟩
      · exact List.infix_rfl
    · exact List.infix_rfl
  by_cases h : text = ""
  · rw [h]
    exact List.nil_infix
  · have hspans : (StyledText.single tone text).spans = [⟨text, tone⟩] := by
      simp [StyledText.single, StyledText.push, h]
    rw [paint, hspans, String.toList_join]
    simpa using hspan

theorem tame_paint {t : StyledText} (h : Inert t.toPlain.toList) :
    canvas.Tame (canvas.paint t).toList := by
  have hspans : ∀ span ∈ t.spans, Inert span.text.toList := by
    intro span hspan c hc
    refine h c ?_
    rw [StyledText.toPlain, String.toList_join]
    exact List.mem_flatMap.2 ⟨span.text, List.mem_map_of_mem hspan, hc⟩
  rw [paint, String.toList_join]
  generalize t.spans = spans at hspans
  induction spans with
  | nil => exact .nil
  | cons span spans ih =>
    have hspan := hspans span List.mem_cons_self
    exact (tame_paintSpan hspan span.tone).append
      (ih fun other hother => hspans other (List.mem_cons_of_mem _ hother))

end Canvas

/-! ## Cells -/

/-- A cell of one tone that is drawn tamely: it is inert, but may be plain and of several
lines. -/
inductive StyledText.Harmless : StyledText → Prop
  | line {tone : Tone} {text : String} : Inert text.toList → Harmless (single tone text)
  | lines {text : String} : InertLines text.toList → Harmless (plain text)

/-- A cell of one tone and one line, shown as it is. -/
inductive StyledText.Shown : StyledText → Prop
  | single {tone : Tone} {text : String} : Inert text.toList → Shown (single tone text)

theorem StyledText.Shown.harmless {t : StyledText} (h : t.Shown) : t.Harmless := by
  obtain ⟨htext⟩ := h
  exact .line htext

namespace Cell

theorem ofText_of_notMem {text : String} (h : '\n' ∉ text.toList) : ofText text = [text] := by
  rw [ofText, linesOf_of_notMem h]
  rfl

end Cell

namespace Canvas

variable {canvas : Canvas}

theorem paint_single_plain (text : String) : canvas.paint (.single .plain text) = text := by
  unfold StyledText.single StyledText.push
  split
  · next h => rw [h]; rfl
  · exact String.toList_inj.1 (by simp [paint, paintSpan, Tone.style?])

theorem paintLines_plain (canvas : Canvas) (text : String) :
    canvas.paintLines (.plain text) = linesOf text := by
  rw [paintLines, StyledText.plain_eq, StyledText.lines_single, List.map_map]
  exact (List.map_congr_left fun line _ => paint_single_plain line).trans (List.map_id _)

theorem paintCell_plain (canvas : Canvas) (text : String) :
    canvas.paintCell (.plain text) = Cell.ofText text := by
  rw [paintCell, paintLines_plain, Cell.ofText]

theorem tame_paintCell {t : StyledText} (h : t.Harmless) :
    ∀ line ∈ canvas.paintCell t, canvas.Tame line.toList := by
  cases h with
  | @line tone text h =>
    have hlines : (StyledText.single tone text).lines = [.single tone text] := by
      rw [StyledText.lines_single, linesOf_of_notMem h.newline_notMem]
      rfl
    intro line hline
    rw [paintCell, paintLines, hlines, List.map_singleton, Cell.ofLines_singleton,
      List.mem_singleton] at hline
    rw [hline]
    refine tame_paint ?_
    rwa [StyledText.single, StyledText.toPlain_push, String.toList_append,
      inert_append, and_iff_right (by decide)]
  | @lines text h =>
    have hlines : ∀ line ∈ linesOf text, Inert line.toList := fun line hline =>
      h.of_mem_linesOf hline
    intro line hline
    rw [paintCell_plain, Cell.ofText,
      Cell.ofLines_of_unescaped fun part hpart => (hlines part hpart).escape_notMem] at hline
    exact tame_of_inert (hlines line hline)

/-! ## Blocks -/

end Canvas

/-- A block of which all texts are inert, those of grids line by line. -/
def Block.Harmless : Block → Prop
  | .heading text _ => Inert text.toList
  | .subHeading label _ => Inert label.toPlain.toList
  | .grid drawn => (∀ name ∈ drawn.columns.toList, Inert name.toList) ∧
      ∀ row ∈ drawn.rows, ∀ cell ∈ row.toList, cell.Harmless
  | .line text => Inert text.toPlain.toList
  | .blank => True

namespace Canvas

variable {canvas : Canvas}

theorem tame_headingLines {text : String} (h : Inert text.toList) (styled : Bool) :
    ∀ line ∈ canvas.headingLines text styled, canvas.Tame line.toList := by
  have htext : Inert ("  " ++ text).toList := by
    simp only [String.toList_append, inert_append]
    exact ⟨by decide, h⟩
  intro line hline
  simp only [headingLines, List.mem_cons, List.not_mem_nil, or_false] at hline
  rcases hline with rfl | rfl | rfl | rfl
  · exact tame_paintSpan (inert_headingRule _) _
  · exact tame_paintSpan htext _
  · exact tame_paintSpan (inert_headingRule _) _
  · exact .nil

theorem tame_subHeadingLines {label : StyledText} (h : Inert label.toPlain.toList) (count : Nat) :
    ∀ line ∈ canvas.subHeadingLines label count, canvas.Tame line.toList := by
  have hlabel : Inert (label.push (" (" ++ toString count ++ ")") .plain).toPlain.toList := by
    rw [StyledText.toPlain_push, String.toList_append, inert_append]
    exact ⟨h, inert_labelCount count⟩
  intro line hline
  rcases List.mem_append.1 hline with hline | hline
  · refine (tame_lineProperty canvas).tableLines .framed 1 (fun _ h => by cases h) ?_ line hline
    intro record hrecord cell hcell drawn hdrawn
    rw [List.mem_singleton.1 hrecord, List.mem_singleton] at hcell
    rw [hcell, Cell.ofText_of_notMem, List.mem_singleton] at hdrawn
    · rw [hdrawn]
      exact tame_paint hlabel
    · rw [← lineFeeds_eq_zero, lineFeeds_paint]
      exact hlabel.lineFeeds
  · rw [List.mem_singleton.1 hline]
    exact .nil

/-- A block of harmless texts is drawn with tame lines. -/
theorem tame_blockLines {block : Block} (h : block.Harmless) :
    ∀ line ∈ canvas.blockLines block, canvas.Tame line.toList := by
  intro line hline
  cases block with
  | heading text styled =>
    simp only [blockLines] at hline
    split at hline
    · exact tame_headingLines h styled line hline
    · cases hline
  | subHeading label count =>
    simp only [blockLines] at hline
    split at hline
    · exact tame_subHeadingLines h count line hline
    · cases hline
  | grid grid =>
    obtain ⟨hcolumns, hcells⟩ := h
    refine (tame_lineProperty canvas).gridLines (fun name hname part hpart => ?_)
      (fun row hrow cell hcell => tame_paintCell (hcells row hrow cell hcell)) line hline
    have hname := hcolumns name hname
    rw [Cell.ofText_of_notMem hname.newline_notMem, List.mem_singleton] at hpart
    rw [hpart]
    exact tame_of_inert hname
  | line text =>
    rw [List.mem_singleton.1 hline]
    exact tame_paint h
  | blank =>
    rw [List.mem_singleton.1 hline]
    exact .nil

end Canvas
end StringReport
