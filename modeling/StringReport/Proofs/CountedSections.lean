import Mathlib.Data.List.Forall2
import StringReport.Proofs.RoutineGroups
import StringReport.Proofs.TameReports

/-!
# Sections that count what they show

The heading of a section tells a number, and so do the labels in it. Below them stand as many
lines with records: in a brief report the strings alone, in a verbose one lines that hold them,
or the data lines of tables. A sanitized string never takes more than its line.
-/
namespace StringReport

/-- Lines that show some texts: one for each text, which stands in it, with no end in between. -/
def ShownOn (texts lines : List String) : Prop :=
  List.Forall₂ (fun text line => text.toList <:+: line.toList ∧ '\n' ∉ line.toList) texts lines

theorem shownOn_map {α : Type} {items : List α} {text line : α → String}
    (h : ∀ item ∈ items, (text item).toList <:+: (line item).toList ∧ '\n' ∉ (line item).toList) :
    ShownOn (items.map text) (items.map line) := by
  rw [ShownOn, List.forall₂_map_left_iff, List.forall₂_map_right_iff, List.forall₂_same]
  exact h

/-- A static string as a report shows it among those of an encoding. -/
def StaticString.shown (encoding : Encoding) (s : StaticString) : String :=
  Sanitizer.terminal s.string (encoding = .ascii)

def LanguageString.shown (s : LanguageString) : String := Sanitizer.terminal s.string false

def FrameString.shown (s : FrameString) : String := Sanitizer.terminal s.string false

def DecodedString.shown (s : DecodedString) : String := Sanitizer.terminal s.string false

namespace Report

variable (policy : Policy)

/-- A text in the color of headings and names, if colors are shown. -/
def accented (text : String) : String :=
  if policy.colorsEnabled then "\x1b[36m" ++ text ++ "\x1b[0m" else text

/-- A text between two rules of some width, and an empty line. -/
def ruledLines (text : String) (width : Nat) : List String :=
  let rule := " " ++ String.ofList (List.replicate (width + 2) '─')
  [accented policy rule, accented policy ("  " ++ text), accented policy rule, ""]

/-- The text of a heading that tells a number of strings. -/
def countedTitle (label : String) (n : Nat) : String :=
  "STREX " ++ label ++ " STRINGS (" ++ toString n ++ ")"

/-- The lines of a heading that tells a number of strings. -/
def countedHeading (label : String) (n : Nat) : List String :=
  ruledLines policy (countedTitle label n) (countedTitle label n).length

/-- The lines of a label that tells a number: a box, and an empty line. The name that stands in
the label has a color. -/
def countedLabel (before name : String) (n : Nat) : List String :=
  let count := " (" ++ toString n ++ ")"
  let width := before.length + name.length + count.length
  let rule := "+" ++ String.ofList (List.replicate (width + 2) '-') ++ "+"
  [rule, "| " ++ before ++ accented policy name ++ count ++ " |", rule, ""]

/-- A heading with a number, and as many lines that show the texts. -/
def Listed (label : String) (n : Nat) (texts lines : List String) : Prop :=
  ∃ body, lines = countedHeading policy label n ++ body ∧ ShownOn texts body ∧ body.length = n

/-- A heading with a number, and a table with as many data lines that show the texts; if the
number is zero, there is no table. -/
def Tabled (label : String) (n : Nat) (texts lines : List String) : Prop :=
  ∃ data, ShownOn texts data ∧ data.length = n ∧
    if n = 0 then lines = countedHeading policy label n
    else ∃ header rule, lines = countedHeading policy label n ++ header :: rule :: data

/-- A heading with a number, which is that of two labels, and below each label as many lines
that show the texts. -/
def ListedInTwo (label before firstName secondName : String) (n : Nat)
    (firstTexts secondTexts lines : List String) : Prop :=
  ∃ a b first second, n = a + b ∧
    lines = countedHeading policy label n ++ (countedLabel policy before firstName a ++ first) ++
      "" :: (countedLabel policy before secondName b ++ second) ∧
    ShownOn firstTexts first ∧ first.length = a ∧ ShownOn secondTexts second ∧ second.length = b

/-- A label with a number, and a table with as many data lines that show the texts. -/
def TabledUnder (before name : String) (n : Nat) (texts lines : List String) : Prop :=
  ∃ header rule data, lines = countedLabel policy before name n ++ header :: rule :: data ++ [""] ∧
    ShownOn texts data ∧ data.length = n

/-- A heading with a number, which is that of the labels of all groups, and below each label a
table of its group. -/
def TabledInGroups (label before : String) (n : Nat) (groups : List (String × List String))
    (lines : List String) : Prop :=
  ∃ parts : List (Nat × List String),
    lines = countedHeading policy label n ++ parts.flatMap (·.2) ∧ n = (parts.map (·.1)).sum ∧
    List.Forall₂ (fun group part => TabledUnder policy before group.1 part.1 group.2 part.2)
      groups parts

/-! ## Lines of records -/

theorem shownOn_offsetLines {α : Type} (items : List α) (offset : α → UInt64) (width : Nat)
    (value : α → String) (h : ∀ item ∈ items, Inert (value item).toList) :
    ShownOn (items.map value)
      (items.map fun item =>
        (canvas policy).paint (offsetLine policy (offset item) width (value item))) := by
  refine shownOn_map fun item hitem => ⟨?_, ?_⟩
  · unfold offsetLine
    split
    · rw [Canvas.paint_push, String.toList_append]
      exact (Canvas.infix_paint_single _ .value _).trans (List.suffix_append _ _).isInfix
    · exact Canvas.infix_paint_single _ .plain _
  · rw [← lineFeeds_eq_zero, Canvas.lineFeeds_paint]
    exact (inert_offsetLine policy _ _ (h item hitem)).lineFeeds

theorem length_ofEncoding (strings : List StaticString) :
    strings.length = (StaticString.ofEncoding .ascii strings).length +
      (StaticString.ofEncoding .utf16 strings).length := by
  induction strings with
  | nil => rfl
  | cons s strings ih =>
    simp only [StaticString.ofEncoding] at ih ⊢
    cases h : s.encoding <;> simp [h] <;> omega

theorem flatMap_line {α : Type} (canvas : Canvas) (items : List α) (text : α → StyledText) :
    (items.map fun item => Block.line (text item)).flatMap canvas.blockLines =
      items.map fun item => canvas.paint (text item) := by
  rw [List.flatMap_map, List.map_eq_flatMap]
  rfl

/-- The data lines of a table of records hold its texts. -/
theorem shownOn_openRows {α : Type} {m : Nat} {items : List α}
    {row : α → Vector StyledText (m + 1)} {value : α → String}
    (hlast : ∀ item, (row item).back = .value (value item)) {grid : Grid (m + 1)}
    (hrows : grid.rows = items.map row) (hopen : grid.Open) :
    ShownOn (items.map value) (grid.rows.map ((canvas policy).openRow grid)) := by
  rw [hrows, List.map_map]
  refine shownOn_map fun item hitem => ⟨?_, ?_⟩
  · have hvalue := (canvas policy).infix_paint_single .value (value item)
    have hline := (canvas policy).infix_openRow grid (row item)
    rw [hlast item] at hline
    exact hvalue.trans hline
  · refine (canvas policy).newline_notMem_gridLines grid _ ?_
    rw [Canvas.gridLines_of_open _ hopen, hrows, List.map_map]
    exact List.mem_append_right _ (List.mem_map_of_mem hitem)

theorem exists_gridLines_open {m : Nat} {grid : Grid (m + 1)} (hopen : grid.Open)
    (hheader : grid.showHeader = true) (canvas : Canvas) :
    ∃ header rule, canvas.gridLines grid =
      header :: rule :: grid.rows.map (canvas.openRow grid) := by
  rw [Canvas.gridLines_of_open _ hopen, hheader]
  exact ⟨_, _, rfl⟩

/-! ## Headings and labels -/

theorem headingLines_eq (text : String) :
    (canvas policy).headingLines text policy.isVerbose =
      ruledLines policy text (displayWidth text) := by
  have hpaint (text : String) : (canvas policy).paintSpan text
      (if policy.isVerbose then .accent else .plain) = accented policy text := by
    cases hverbose : policy.isVerbose with
    | true => rfl
    | false =>
      have hcolors : policy.colorsEnabled = false := by
        rw [Policy.colorsEnabled, hverbose, Bool.and_false]
      rw [accented, hcolors]
      rfl
  simp only [Canvas.headingLines, hpaint, ruledLines]

theorem displayWidth_countedTitle {label : String} (h : Printable label.toList) (n : Nat) :
    displayWidth (countedTitle label n) = (countedTitle label n).length := by
  have hprintable : Printable (countedTitle label n).toList := by
    have hdigits : Printable (toString n).toList := (visible_toString n).printable
    simp only [countedTitle, String.toList_append, printable_append, h, hdigits, and_true]
    exact ⟨⟨by decide, by decide⟩, by decide⟩
  rw [displayWidth_eq_textWidth hprintable.inert.isIntroducer, textWidth_of_printable hprintable,
    String.length_toList]

theorem printable_languageLabel (language : Language) : Printable language.label.toList := by
  cases language <;> decide

theorem paint_accent {name : String} (h : name ≠ "") :
    (canvas policy).paint (.single .accent name) = accented policy name :=
  (canvas policy).paint_single h .accent

theorem paint_encodingLabel (encoding : Encoding) :
    (canvas policy).paint (encodingLabel policy encoding) =
      "STREX STATIC STRINGS: " ++ accented policy encoding.label := by
  have hlabel : encoding.label ≠ "" := by
    cases encoding <;> decide
  unfold encodingLabel
  cases hverbose : policy.isVerbose with
  | true =>
    rw [if_pos rfl, Canvas.paint_push, paint_accent policy hlabel, StyledText.plain_eq,
      Canvas.paint_single_plain]
    rfl
  | false =>
    have hcolors : policy.colorsEnabled = false := by
      rw [Policy.colorsEnabled, hverbose, Bool.and_false]
    rw [if_neg Bool.false_ne_true, StyledText.plain_eq, Canvas.paint_single_plain, accented,
      hcolors]
    rfl

theorem address_ne_empty (value : UInt64) : Hex.address value ≠ "" := by
  intro h
  have hlength := congrArg String.length h
  rw [Hex.address, String.length_append] at hlength
  exact absurd hlength (by simp)

theorem paint_routineLabel (routine : UInt64) :
    (canvas policy).paint ((StyledText.plain " FUNCTION at ").push (Hex.address routine) .accent) =
      " FUNCTION at " ++ accented policy (Hex.address routine) := by
  rw [Canvas.paint_push, paint_accent policy (address_ne_empty routine), StyledText.plain_eq,
    Canvas.paint_single_plain]

/-- A label of printed characters is drawn as a box, which is as wide as what is printed. -/
theorem subHeadingLines_of_paint {label : StyledText} {before name : String}
    (hbefore : Printable before.toList) (hname : Printable name.toList) (hne : name ≠ "")
    (hpaint : (canvas policy).paint label = before ++ accented policy name) (n : Nat) :
    (canvas policy).subHeadingLines label n = countedLabel policy before name n := by
  have hlines := @Canvas.subHeadingLines_eq (canvas policy) label n
  have hcount := printable_labelCount n
  unfold countedLabel
  generalize " (" ++ toString n ++ ")" = count at hlines hcount ⊢
  have hpainted : (canvas policy).paint (label.push count .plain) =
      before ++ accented policy name ++ count := by
    rw [Canvas.paint_push, hpaint, Canvas.paint_single_plain]
  have hwidth : tableWidth (before ++ accented policy name ++ count) =
      before.length + name.length + count.length := by
    rw [← paint_accent policy hne,
      ← (canvas policy).tableWidth_paint_label .accent hbefore hname hcount,
      Canvas.paint_push, Canvas.paint_push, StyledText.plain_eq, Canvas.paint_single_plain,
      Canvas.paint_single_plain]
  have hone : '\n' ∉ ((canvas policy).paint (label.push count .plain)).toList := by
    have haccented : '\n' ∉ (accented policy name).toList := by
      have hbare := hname.inert.newline_notMem
      unfold accented
      split
      · simp [hbare]
      · exact hbare
    rw [hpainted, String.toList_append, String.toList_append, List.mem_append, List.mem_append]
    rintro ((h | h) | h)
    · exact hbefore.inert.newline_notMem h
    · exact haccented h
    · exact hcount.inert.newline_notMem h
  have hrule (width : Nat) : Canvas.boxRule width =
      "+" ++ String.ofList (List.replicate (width + 2) '-') ++ "+" := by
    simp [Canvas.boxRule, joinLine, ruleParts]
  rw [hlines hone]
  simp only [hpainted, hwidth, hrule]
  simp only [String.append_assoc]

variable {policy} (hheaders : policy.headers = true)

include hheaders

theorem blockLines_sectionHeading {label : String} (hlabel : Printable label.toList) (n : Nat) :
    (canvas policy).blockLines (sectionHeading policy label n) =
      countedHeading policy label n := by
  rw [sectionHeading, Canvas.blockLines, canvas, if_pos hheaders, countedHeading,
    ← displayWidth_countedTitle hlabel]
  exact headingLines_eq policy _

theorem blockLines_countedEncoding (encoding : Encoding) (n : Nat) :
    (canvas policy).blockLines (.subHeading (encodingLabel policy encoding) n) =
      countedLabel policy "STREX STATIC STRINGS: " encoding.label n := by
  rw [Canvas.blockLines, canvas, if_pos hheaders]
  refine subHeadingLines_of_paint policy (by decide) ?_ ?_ (paint_encodingLabel policy encoding) n
  · cases encoding <;> decide
  · cases encoding <;> decide

theorem blockLines_countedRoutine (routine : UInt64) (n : Nat) :
    (canvas policy).blockLines
        (.subHeading ((StyledText.plain " FUNCTION at ").push (Hex.address routine) .accent) n) =
      countedLabel policy " FUNCTION at " (Hex.address routine) n := by
  rw [Canvas.blockLines, canvas, if_pos hheaders]
  exact subHeadingLines_of_paint policy (by decide) (printable_address routine)
    (address_ne_empty routine) (paint_routineLabel policy routine) n

/-! ## Sections -/

theorem lines_encodingBlocks (width : Nat) (encoding : Encoding) (strings : List StaticString) :
    (encodingBlocks policy .terminal width encoding strings).value.flatMap
        (canvas policy).blockLines =
      countedLabel policy "STREX STATIC STRINGS: " encoding.label strings.length ++
        strings.map fun s => (canvas policy).paint
          (offsetLine policy s.offset width (s.shown encoding)) := by
  simp only [encodingBlocks, Traced.value_bind, Traced.value_each, Traced.value_pure,
    List.flatMap_cons, blockLines_countedEncoding hheaders]
  exact congrArg _ (flatMap_line _ _ _)

theorem listedInTwo_staticBlocks (strings : List StaticString) :
    ListedInTwo policy "STATIC" "STREX STATIC STRINGS: " "ASCII" "UTF-16LE" strings.length
      ((StaticString.ofEncoding .ascii strings).map (StaticString.shown .ascii))
      ((StaticString.ofEncoding .utf16 strings).map (StaticString.shown .utf16))
      ((staticBlocks policy .terminal strings).value.flatMap (canvas policy).blockLines) := by
  let width := offsetWidth (strings.map (·.offset))
  have hshown (encoding : Encoding) := shownOn_offsetLines policy
    (StaticString.ofEncoding encoding strings) (·.offset) width
    (StaticString.shown encoding) fun s _ => inert_terminal _ _
  refine ⟨_, _, _, _, length_ofEncoding strings, ?_, hshown .ascii, by simp, hshown .utf16,
    by simp⟩
  simp only [staticBlocks, Traced.value_bind, Traced.value_pure, List.cons_append,
    List.flatMap_cons, List.flatMap_append,
    blockLines_sectionHeading hheaders (by decide : Printable "STATIC".toList),
    lines_encodingBlocks hheaders, List.append_assoc]
  rfl

theorem listed_languageBlocks (language : Language) (found missed : List LanguageString) :
    Listed policy language.label (found ++ missed).length
      ((LanguageString.sortByOffset (found ++ missed)).map LanguageString.shown)
      ((languageBlocks policy .terminal language found missed).value.flatMap
        (canvas policy).blockLines) := by
  have hlength : (LanguageString.sortByOffset (found ++ missed)).length =
      (found ++ missed).length :=
    (LanguageString.inOrder_sortByOffset _).perm.length_eq
  let width := Hex.width
    (((LanguageString.sortByOffset (found ++ missed)).getLast?.map (·.offset)).getD 0)
  have hshown := shownOn_offsetLines policy
    (LanguageString.sortByOffset (found ++ missed)) (·.offset) width
    LanguageString.shown fun s _ => inert_terminal _ _
  refine ⟨_, ?_, hshown, by rw [List.length_map, hlength]⟩
  simp only [languageBlocks, Traced.value_bind, Traced.value_each, Traced.value_pure,
    List.flatMap_cons, blockLines_sectionHeading hheaders
      (printable_languageLabel language), hlength]
  exact congrArg _ (flatMap_line _ _ _)

theorem listed_plainLines {label : String} (hlabel : Printable label.toList) {α : Type}
    (items : List α) (string : α → String) :
    Listed policy label items.length
      (items.map fun item => Sanitizer.terminal (string item) false)
      ((canvas policy).blockLines (sectionHeading policy label items.length) ++
        (plainLines .terminal (items.map string)).value.flatMap (canvas policy).blockLines) := by
  have hlines : (plainLines .terminal (items.map string)).value.flatMap
      (canvas policy).blockLines =
      items.map fun item => (canvas policy).paint
        (.plain (Sanitizer.terminal (string item) false)) := by
    have hvalue : (plainLines .terminal (items.map string)).value =
        items.map fun item => Block.line (.plain (Sanitizer.terminal (string item) false)) := by
      simp only [plainLines, Traced.value_each, List.map_map]
      rfl
    rw [hvalue, flatMap_line]
  rw [hlines, blockLines_sectionHeading hheaders hlabel]
  refine ⟨_, rfl, shownOn_map fun item _ => ⟨Canvas.infix_paint_single _ .plain _, ?_⟩, by simp⟩
  rw [← lineFeeds_eq_zero, Canvas.lineFeeds_paint, StyledText.toPlain_plain]
  exact (inert_terminal _ _).lineFeeds

theorem listed_frameBlocks (hverbose : policy.isVerbose = false) {label : String}
    (hlabel : Printable label.toList) (strings : List FrameString) :
    Listed policy label strings.length (strings.map FrameString.shown)
      ((frameBlocks policy .terminal label strings).value.flatMap (canvas policy).blockLines) := by
  have hlisted := listed_plainLines hheaders hlabel strings FrameString.string
  simp only [frameBlocks, hverbose, Bool.false_eq_true, if_false, Traced.value_bind,
    Traced.value_pure, List.flatMap_cons]
  exact hlisted

theorem listed_decodedBlocks (hverbose : policy.isVerbose = false)
    (strings : List DecodedString) :
    Listed policy "DECODED" strings.length (strings.map DecodedString.shown)
      ((decodedBlocks policy .terminal strings).value.flatMap (canvas policy).blockLines) := by
  have hlisted := listed_plainLines hheaders (by decide : Printable "DECODED".toList) strings
    DecodedString.string
  simp only [decodedBlocks, hverbose, Bool.false_eq_true, if_false, Traced.value_bind,
    Traced.value_pure, List.flatMap_cons]
  exact hlisted

/-- A table of frame strings is drawn with a header, a rule and a line for each string. -/
theorem tabled_frameBlocks (hverbose : policy.isVerbose = true) {label : String}
    (hlabel : Printable label.toList) (strings : List FrameString) :
    Tabled policy label strings.length (strings.map FrameString.shown)
      ((frameBlocks policy .terminal label strings).value.flatMap (canvas policy).blockLines) := by
  have hopen := open_frameGrid policy strings
  have hshown := shownOn_openRows policy (back_frameRow .terminal) rfl hopen
  obtain ⟨header, rule, hlines⟩ := exists_gridLines_open hopen hheaders (canvas policy)
  refine ⟨_, hshown, by simp [frameGrid], ?_⟩
  simp only [frameBlocks, hverbose, if_true, Traced.value_bind, Traced.value_each,
    Traced.value_pure, List.flatMap_cons, blockLines_sectionHeading hheaders hlabel]
  cases strings with
  | nil => simp
  | cons s strings =>
    simp only [List.length_cons, Nat.succ_ne_zero, if_false, List.isEmpty_cons,
      Bool.false_eq_true, List.flatMap_cons, List.flatMap_nil, List.append_nil]
    exact ⟨header, rule, congrArg _ hlines⟩

theorem tabledUnder_routineBlocks (group : UInt64 × List DecodedString) :
    TabledUnder policy " FUNCTION at " (Hex.address group.1) group.2.length
      (group.2.map DecodedString.shown)
      ((routineBlocks policy .terminal group).value.flatMap (canvas policy).blockLines) := by
  have hopen := open_decodedGrid policy group.2
  have hshown := shownOn_openRows policy (back_decodedRow .terminal) rfl hopen
  obtain ⟨header, rule, hlines⟩ := exists_gridLines_open hopen hheaders (canvas policy)
  refine ⟨header, rule, _, ?_, hshown, by simp [decodedGrid]⟩
  simp only [routineBlocks, Traced.value_bind, Traced.value_each, Traced.value_pure,
    List.flatMap_cons, List.flatMap_nil, List.append_nil, blockLines_countedRoutine hheaders,
    List.append_assoc]
  exact congrArg _ (congrArg (· ++ [""]) hlines)

/-- Decoded strings are counted as a whole and routine by routine. -/
theorem tabledInGroups_decodedBlocks (hverbose : policy.isVerbose = true)
    (strings : List DecodedString) :
    TabledInGroups policy "DECODED" " FUNCTION at " strings.length
      ((DecodedString.routines strings).map fun routine =>
        (Hex.address routine, (DecodedString.ofRoutine routine strings).map DecodedString.shown))
      ((decodedBlocks policy .terminal strings).value.flatMap (canvas policy).blockLines) := by
  have hsum : strings.length = ((DecodedString.routines strings).map fun routine =>
      (DecodedString.ofRoutine routine strings).length).sum := by
    rw [← List.length_flatMap]
    exact (DecodedString.perm_flatMap_ofRoutine strings).length_eq.symm
  let parts := (DecodedString.routines strings).map fun routine =>
    ((DecodedString.ofRoutine routine strings).length,
      (routineBlocks policy .terminal
        (routine, DecodedString.ofRoutine routine strings)).value.flatMap
          (canvas policy).blockLines)
  refine ⟨parts, ?_, ?_, ?_⟩
  · simp only [decodedBlocks, hverbose, if_true, Traced.value_bind, Traced.value_each,
      Traced.value_pure, List.flatMap_cons,
      blockLines_sectionHeading hheaders (by decide : Printable "DECODED".toList),
      DecodedString.groupByRoutine_eq, List.map_map, ← List.flatMap_def, List.flatMap_assoc,
      parts, List.flatMap_map]
    rfl
  · rw [List.map_map]
    exact hsum
  · rw [List.forall₂_map_left_iff, List.forall₂_map_right_iff, List.forall₂_same]
    intro routine _
    have htable := tabledUnder_routineBlocks hheaders
      (routine, DecodedString.ofRoutine routine strings)
    exact htable

end Report
end StringReport
