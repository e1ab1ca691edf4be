import StringReport.Proofs.PlainSections
import StringReport.Proofs.SanitizedTexts

/-!
# Listings by offset

A verbose listing of strings that stand in the file has an offset before each of them. All
offsets of a section take as many digits as the largest does, so none is cut, the largest has no
zero before its digits, and every string begins in the same column. The width is found out in two
ways: from all offsets of the static strings, and from the last of the sorted ones of a language
runtime, which is the largest only because they are sorted.
-/
namespace StringReport

/-! ## Widths -/

/-- The largest of some offsets; zero if there are none. -/
def largestOffset (offsets : List UInt64) : Nat := ((offsets.map UInt64.toNat).max?).getD 0

/-- How many digits the largest of some offsets has. -/
def columnDigits (offsets : List UInt64) : Nat := (Hex.digits (largestOffset offsets)).length

theorem toNat_le_largestOffset {offsets : List UInt64} {offset : UInt64} (h : offset ∈ offsets) :
    offset.toNat ≤ largestOffset offsets :=
  List.le_max?_getD_of_mem (List.mem_map_of_mem h)

theorem largestOffset_eq {offsets : List UInt64} {largest : UInt64} (hmem : largest ∈ offsets)
    (hle : ∀ offset ∈ offsets, offset ≤ largest) : largestOffset offsets = largest.toNat := by
  refine Nat.le_antisymm ?_ (toNat_le_largestOffset hmem)
  obtain ⟨most, hmost⟩ := Option.isSome_iff_exists.1
    (List.isSome_max?_of_mem (List.mem_map_of_mem (f := UInt64.toNat) hmem))
  obtain ⟨offset, hoffset, rfl⟩ := List.mem_map.1 (List.max?_mem hmost)
  rw [largestOffset, hmost, Option.getD_some]
  exact UInt64.le_iff_toNat_le.1 (hle offset hoffset)

/-- Where the column has more than one digit, it is an offset that has as many. -/
theorem exists_mem_of_columnDigits_ne {offsets : List UInt64} (h : columnDigits offsets ≠ 1) :
    ∃ offset ∈ offsets, offset.toNat = largestOffset offsets := by
  unfold columnDigits at h
  unfold largestOffset at h ⊢
  cases hmost : (offsets.map UInt64.toNat).max? with
  | none =>
    rw [hmost] at h
    exact absurd rfl h
  | some most => exact List.mem_map.1 (List.max?_mem hmost)

/-- No offset takes more digits than the largest. -/
theorem length_digits_le_columnDigits {offsets : List UInt64} {offset : UInt64}
    (h : offset ∈ offsets) : (Hex.digits offset.toNat).length ≤ columnDigits offsets :=
  Hex.length_digits_mono (toNat_le_largestOffset h)

theorem offsetWidth_eq (offsets : List UInt64) : offsetWidth offsets = columnDigits offsets := by
  have hfold (start : UInt64) :
      (offsets.foldl (fun a b => if a < b then b else a) start).toNat =
        (offsets.map UInt64.toNat).foldl max start.toNat := by
    induction offsets generalizing start with
    | nil => rfl
    | cons offset offsets ih =>
      have hmax : (if start < offset then offset else start).toNat =
          max start.toNat offset.toNat := by
        split
        · next h => rw [Nat.max_eq_right (Nat.le_of_lt (UInt64.lt_iff_toNat_lt.1 h))]
        · next h => rw [Nat.max_eq_left (Nat.le_of_not_lt (mt UInt64.lt_iff_toNat_lt.2 h))]
      rw [List.foldl_cons, ih, hmax, List.map_cons, List.foldl_cons]
  rw [columnDigits, largestOffset, max?_getD_eq_foldl, offsetWidth, Hex.width, hfold]
  rfl

/-- The last of the ordered records has the largest offset. -/
theorem InOrder.width_last {α : Type} {offset : α → UInt64} {records ordered : List α}
    (h : InOrder offset records ordered) :
    Hex.width ((ordered.getLast?.map offset).getD 0) = columnDigits (records.map offset) := by
  rcases List.eq_nil_or_concat' ordered with rfl | ⟨before, last, rfl⟩
  · rw [h.perm.nil_eq.symm]
    rfl
  · have hmem : last ∈ records := h.perm.subset (by simp)
    have hle : ∀ s ∈ records, offset s ≤ offset last := by
      intro s hs
      rcases List.mem_append.1 (h.perm.symm.subset hs) with hs | hs
      · exact (List.pairwise_append.1 h.ascending).2.2 s hs last (by simp)
      · exact List.mem_singleton.1 hs ▸ UInt64.le_refl _
    have hlargest := largestOffset_eq (List.mem_map_of_mem (f := offset) hmem) (by
      intro value hvalue
      obtain ⟨s, hs, rfl⟩ := List.mem_map.1 hvalue
      exact hle s hs)
    rw [List.getLast?_concat, columnDigits, hlargest]
    rfl

/-! ## Lines -/

/-- A line that tells an offset and a text: the offset in so many digits of lower case, which are
read back as it is, and the text behind the space that follows them, in the same column whatever
the digits are. -/
structure OffsetLine (width : Nat) (offset : UInt64) (text : String) (digits : List Char)
    (line : String) : Prop where
  drawn : line = "0x" ++ String.ofList digits ++ " " ++ text
  length : digits.length = width
  lower : ∀ c ∈ digits, c ∈ Hex.lowerDigits
  read : Hex.value? digits = some offset.toNat
  column : displayWidth ("0x" ++ String.ofList digits ++ " ") = 2 + width + 1
  oneLine : '\n' ∉ line.toList

/-- Lines that tell records by their offsets, one for each in their order. -/
def ListsOffsets {α : Type} (width : Nat) (offset : α → UInt64) (text : α → String)
    (records : List α) (lines : List String) : Prop :=
  List.Forall₂ (fun record line =>
    ∃ digits, OffsetLine width (offset record) (text record) digits line) records lines

theorem offsetLine_padded {width : Nat} {offset : UInt64} {text : String}
    (hwidth : (Hex.digits offset.toNat).length ≤ width) (htext : Inert text.toList) :
    OffsetLine width offset text (Hex.padded width offset.toNat)
      (Hex.offset offset width ++ " " ++ text) := by
  have hlength : (Hex.padded width offset.toNat).length = width := by
    rw [Hex.length_padded, Nat.max_eq_left hwidth]
  have hprintable : Printable (Hex.padded width offset.toNat) := by
    have hlower : Printable Hex.lowerDigits := by decide
    exact fun c hc => hlower c (Hex.mem_lowerDigits_of_mem_padded hc)
  have hbefore : Printable
      ("0x" ++ String.ofList (Hex.padded width offset.toNat) ++ " ").toList := by
    simp only [String.toList_append, String.toList_ofList, printable_append]
    exact ⟨⟨by decide, hprintable⟩, by decide⟩
  refine ⟨rfl, hlength, fun c hc => Hex.mem_lowerDigits_of_mem_padded hc, Hex.value?_padded _ _,
    ?_, ?_⟩
  · rw [displayWidth_eq_textWidth hbefore.inert.isIntroducer, textWidth_of_printable hbefore]
    simp only [String.toList_append, String.toList_ofList, List.length_append, hlength]
    rfl
  · have hline : Inert (Hex.offset offset width ++ " " ++ text).toList := by
      simp only [String.toList_append, inert_append, inert_offset, htext, and_true, true_and]
      decide
    exact hline.newline_notMem

theorem listsOffsets_map {α : Type} {records : List α} {offset : α → UInt64} {width : Nat}
    {text : α → String}
    (hwidth : ∀ record ∈ records, (Hex.digits (offset record).toNat).length ≤ width)
    (htext : ∀ record ∈ records, Inert (text record).toList) :
    ListsOffsets width offset text records
      (records.map fun record => Hex.offset (offset record) width ++ " " ++ text record) := by
  rw [ListsOffsets, List.forall₂_map_right_iff, List.forall₂_same]
  exact fun record hrecord =>
    ⟨_, offsetLine_padded (hwidth record hrecord) (htext record hrecord)⟩

/-- An offset that takes all digits of its column has no zero before them. -/
theorem not_prefix_offset {offset : UInt64} {width : Nat}
    (hlength : (Hex.digits offset.toNat).length = width) (hwidth : width ≠ 1) (text : String) :
    ¬ "0x0".toList <+: (Hex.offset offset width ++ " " ++ text).toList := by
  have hpadded : Hex.padded width offset.toNat = Hex.digits offset.toNat := by
    rw [Hex.padded, List.leftpad, hlength, Nat.sub_self]
    rfl
  have hhead := Hex.head?_digits_ne (hlength ▸ hwidth)
  obtain ⟨first, later, hdigits⟩ := List.exists_cons_of_ne_nil (Hex.digits_ne_nil offset.toNat)
  rw [hdigits, List.head?_cons] at hhead
  rintro ⟨rest, hrest⟩
  rw [Hex.offset, hpadded, hdigits] at hrest
  have hthird : '0' = first := by simpa using congrArg (fun text => (text.drop 2).head?) hrest
  exact hhead (hthird ▸ rfl)

/-! ## Characters beyond ASCII -/

/-- A character beyond ASCII is shown as it is, unless it is obeyed or all of them are escaped. -/
theorem filter_shown (asciiOnly : Bool) (c : Char) :
    (Sanitizer.shown asciiOnly c).filter (fun d => !Character.isAscii d) =
      if asciiOnly || Character.isAscii c || Character.isObeyed c then [] else [c] := by
  rw [Sanitizer.shown_eq]
  split
  · next h =>
    have hescape : asciiOnly || Character.isAscii c || Character.isObeyed c := by
      simp only [Sanitizer.mustEscape, Bool.or_eq_true, Bool.and_eq_true] at h
      rcases h with h | h
      · simp [Character.isObeyed, h]
      · simp [h.1]
    rw [if_pos hescape, List.filter_eq_nil_iff]
    intro d hd
    have hsafe := Sanitizer.mustEscape_of_mem_escapeOf hd true
    simp [(Sanitizer.mustEscape_eq_false_iff.1 hsafe).2.2 rfl]
  · next h =>
    simp only [Sanitizer.mustEscape, Bool.not_eq_true, Bool.or_eq_false_iff] at h
    have hobeyed : Character.isObeyed c = false := by simp [Character.isObeyed, h.1]
    cases hascii : Character.isAscii c with
    | true => simp [hascii]
    | false =>
      have hall : asciiOnly = false := by simpa [hascii] using h.2
      simp [hascii, hobeyed, hall]

theorem filter_terminal (value : String) (asciiOnly : Bool) :
    (Sanitizer.terminal value asciiOnly).toList.filter (fun c => !Character.isAscii c) =
      if asciiOnly then []
      else value.toList.filter fun c => !Character.isAscii c && !Character.isObeyed c := by
  rw [Sanitizer.toList_terminal]
  induction value.toList with
  | nil => cases asciiOnly <;> rfl
  | cons c text ih =>
    rw [List.flatMap_cons, List.filter_append, ih, filter_shown]
    cases asciiOnly with
    | true => rfl
    | false =>
      cases hascii : Character.isAscii c <;> cases hobeyed : Character.isObeyed c <;>
        simp [hascii, hobeyed]

namespace Report

variable {policy : Policy} (hverbose : policy.isVerbose = true)
  (hcolors : policy.colorsEnabled = false)
include hverbose hcolors

theorem lines_offsetLines_plain {α : Type} (records : List α) (offset : α → UInt64) (width : Nat)
    (text : α → String) :
    (records.map fun record =>
        Block.line (offsetLine policy (offset record) width (text record))).flatMap
      (canvas policy).blockLines =
      records.map fun record => Hex.offset (offset record) width ++ " " ++ text record := by
  rw [flatMap_line]
  refine List.map_congr_left fun record _ => ?_
  rw [paint_of_colorsEnabled hcolors, offsetLine, if_pos hverbose, StyledText.toPlain_push,
    StyledText.toPlain_plain]

theorem lines_encodingBlocks_plain (width : Nat) (encoding : Encoding)
    (strings : List StaticString) :
    (encodingBlocks policy .terminal width encoding strings).value.flatMap
        (canvas policy).blockLines =
      labelLines policy ("STREX STATIC STRINGS: " ++ encoding.label) strings.length ++
        strings.map fun s => Hex.offset s.offset width ++ " " ++ s.shown encoding := by
  have htext : (encodingLabel policy encoding).toPlain =
      "STREX STATIC STRINGS: " ++ encoding.label := by
    rw [encodingLabel, if_pos hverbose, StyledText.toPlain_push, StyledText.toPlain_plain]
    rfl
  have hprintable : Printable (encodingLabel policy encoding).toPlain.toList := by
    rw [htext]
    cases encoding <;> decide
  simp only [encodingBlocks, Traced.value_bind, Traced.value_each, Traced.value_pure,
    List.flatMap_cons]
  rw [blockLines_label hcolors hprintable, htext]
  exact congrArg _ (lines_offsetLines_plain hverbose hcolors strings (·.offset) width _)

/-- The strings of a language runtime, found and missed together, are listed by ascending offset,
those of one offset as they came. The offsets take as many digits as the largest of them, which
has no zero before its own. -/
theorem exists_ordered_languageBlocks (language : Language) (found missed : List LanguageString) :
    ∃ (ordered : List LanguageString) (lines : List String),
      (canvas policy).draw (languageBlocks policy .terminal language found missed).value =
        headingText policy language.label (found ++ missed).length ++ endedLines lines ∧
      InOrder LanguageString.offset (found ++ missed) ordered ∧
      ListsOffsets (columnDigits ((found ++ missed).map (·.offset))) (·.offset)
        LanguageString.shown ordered lines ∧
      (columnDigits ((found ++ missed).map (·.offset)) ≠ 1 →
        ∃ line ∈ lines, ¬ "0x0".toList <+: line.toList) := by
  let strings := found ++ missed
  let ordered := LanguageString.sortByOffset strings
  let width := columnDigits (strings.map (·.offset))
  have hordered : InOrder LanguageString.offset strings ordered :=
    LanguageString.inOrder_sortByOffset strings
  have hmem {s : LanguageString} (hs : s ∈ ordered) : s.offset ∈ strings.map (·.offset) :=
    List.mem_map_of_mem (hordered.perm.subset hs)
  refine ⟨ordered, ordered.map fun s => Hex.offset s.offset width ++ " " ++ s.shown, ?_, hordered,
    ?_, fun hwidth => ?_⟩
  · have hlines := lines_offsetLines_plain hverbose hcolors ordered (·.offset) width
      LanguageString.shown
    simp only [languageBlocks, Traced.value_bind, Traced.value_each, Traced.value_pure]
    rw [draw_heading_cons, hordered.perm.length_eq, hordered.width_last, ← hlines]
    rfl
  · exact listsOffsets_map (fun s hs => length_digits_le_columnDigits (hmem hs))
      fun s _ => inert_terminal _ _
  · obtain ⟨_, hoffset, hlargest⟩ := exists_mem_of_columnDigits_ne hwidth
    obtain ⟨s, hs, rfl⟩ := List.mem_map.1 hoffset
    refine ⟨_, List.mem_map_of_mem (hordered.perm.symm.subset hs), ?_⟩
    exact not_prefix_offset (by rw [hlargest]; rfl) hwidth _

omit hverbose hcolors in
/-- Two strings of one offset, one found and one missed, and one before them. -/
theorem exists_ordered_languageBlocks_tiedSample :
    let policy : Policy := ⟨.verbose, true, .never, false⟩
    policy.isVerbose = true ∧ policy.colorsEnabled = false ∧
    ∃ lines : List String,
      (canvas policy).draw (languageBlocks policy .terminal .go [⟨"b\n", 0x1f0⟩, ⟨"", 0xa⟩]
          [⟨" c", 0x1f0⟩]).value = headingText policy "GO" 3 ++ endedLines lines ∧
      ListsOffsets 3 (·.offset) LanguageString.shown
        [⟨"", 0xa⟩, ⟨"b\n", 0x1f0⟩, ⟨" c", 0x1f0⟩] lines ∧
      ∃ line ∈ lines, ¬ "0x0".toList <+: line.toList := by
  intro policy
  have hverbose : policy.isVerbose = true := rfl
  have hcolors : policy.colorsEnabled = false := rfl
  obtain ⟨ordered, lines, hdrawn, hordered, hlists, hfull⟩ :=
    exists_ordered_languageBlocks hverbose hcolors .go [⟨"b\n", 0x1f0⟩, ⟨"", 0xa⟩] [⟨" c", 0x1f0⟩]
  have hsorted : InOrder LanguageString.offset [⟨"b\n", 0x1f0⟩, ⟨"", 0xa⟩, ⟨" c", 0x1f0⟩]
      [⟨"", 0xa⟩, ⟨"b\n", 0x1f0⟩, ⟨" c", 0x1f0⟩] := by
    refine ⟨List.Perm.swap _ _ _, by decide, fun offset => ?_⟩
    by_cases hlow : (0xa : UInt64) = offset
    · subst hlow
      decide
    · simp [List.filter_cons, hlow]
  obtain rfl := hordered.unique hsorted
  have hwidth : columnDigits [0x1f0, 0xa, 0x1f0] = 3 := by decide
  exact ⟨hverbose, hcolors, lines, hdrawn, hwidth ▸ hlists, hfull (by decide)⟩

/-- The static strings stand in two halves by their encodings, each with its strings as they came.
The offsets of both take as many digits as the largest of all, so all strings begin in one
column. Characters beyond ASCII are escaped in the first half, and not for that in the second. -/
theorem exists_halves_staticBlocks (strings : List StaticString) :
    ∃ ascii utf16 : List String,
      (canvas policy).draw (staticBlocks policy .terminal strings).value =
        headingText policy "STATIC" strings.length ++
          endedLines (labelLines policy "STREX STATIC STRINGS: ASCII"
              (strings.filter (·.encoding = .ascii)).length ++ ascii ++
            "" :: (labelLines policy "STREX STATIC STRINGS: UTF-16LE"
              (strings.filter (·.encoding = .utf16)).length ++ utf16)) ∧
      ListsOffsets (columnDigits (strings.map (·.offset))) (·.offset) (StaticString.shown .ascii)
        (strings.filter (·.encoding = .ascii)) ascii ∧
      ListsOffsets (columnDigits (strings.map (·.offset))) (·.offset) (StaticString.shown .utf16)
        (strings.filter (·.encoding = .utf16)) utf16 ∧
      ∀ s ∈ strings, (s.shown s.encoding).toList.filter (fun c => !Character.isAscii c) =
        if s.encoding = .ascii then []
        else s.string.toList.filter fun c => !Character.isAscii c && !Character.isObeyed c := by
  let width := columnDigits (strings.map (·.offset))
  let lines (encoding : Encoding) (strings : List StaticString) : List String :=
    strings.map fun s => Hex.offset s.offset width ++ " " ++ s.shown encoding
  have hlists (encoding : Encoding) : ListsOffsets width (·.offset) (StaticString.shown encoding)
      (strings.filter (·.encoding = encoding)) (lines encoding
        (strings.filter (·.encoding = encoding))) := by
    refine listsOffsets_map (fun s hs => length_digits_le_columnDigits ?_)
      fun s _ => inert_terminal _ _
    exact List.mem_map_of_mem (List.mem_of_mem_filter hs)
  refine ⟨_, _, ?_, hlists .ascii, hlists .utf16, fun s _ => ?_⟩
  · have hhalf (encoding : Encoding) (strings : List StaticString) :
        (encodingBlocks policy .terminal width encoding strings).value.flatMap
            (canvas policy).blockLines =
          labelLines policy ("STREX STATIC STRINGS: " ++ encoding.label) strings.length ++
            lines encoding strings :=
      lines_encodingBlocks_plain hverbose hcolors width encoding strings
    simp only [staticBlocks, Traced.value_bind, Traced.value_pure, List.cons_append,
      StaticString.ofEncoding, offsetWidth_eq]
    rw [draw_heading_cons, List.flatMap_append, List.flatMap_cons, hhalf, hhalf]
    rfl
  · rw [StaticString.shown, filter_terminal]
    simp

omit hverbose hcolors in
/-- A string of either encoding with a character beyond ASCII; the larger offset is in the second
half. -/
theorem exists_halves_staticBlocks_mixedSample :
    let policy : Policy := ⟨.verbose, false, .auto, false⟩
    policy.isVerbose = true ∧ policy.colorsEnabled = false ∧
    ∃ ascii utf16 : List String,
      (canvas policy).draw (staticBlocks policy .terminal
          [⟨"é\u200e", 0x40, .utf16⟩, ⟨" é", 0x7, .ascii⟩]).value =
        headingText policy "STATIC" 2 ++ endedLines (ascii ++ "" :: utf16) ∧
      ListsOffsets 2 (·.offset) (StaticString.shown .ascii) [⟨" é", 0x7, .ascii⟩] ascii ∧
      ListsOffsets 2 (·.offset) (StaticString.shown .utf16) [⟨"é\u200e", 0x40, .utf16⟩] utf16 := by
  intro policy
  have hverbose : policy.isVerbose = true := rfl
  have hcolors : policy.colorsEnabled = false := rfl
  obtain ⟨ascii, utf16, hdrawn, hascii, hutf16, -⟩ := exists_halves_staticBlocks hverbose hcolors
    [⟨"é\u200e", 0x40, .utf16⟩, ⟨" é", 0x7, .ascii⟩]
  have hwidth : columnDigits [0x40, 0x7] = 2 := by decide
  exact ⟨hverbose, hcolors, ascii, utf16, hdrawn, hwidth ▸ hascii, hwidth ▸ hutf16⟩

end Report
end StringReport
