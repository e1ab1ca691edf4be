import StringReport.Proofs.HexOrder
import StringReport.Proofs.OffsetColumns

/-!
# Static strings as they came

Strings of a language runtime are put in the order of their offsets before they are listed, static
strings are not: each half of their section has them as the document has. So a half stands in
ascending order only if its strings came in that order. A verbose report shows it, for the offsets
stand before the strings. A brief one shows the strings alone, and looks as if they were in order
where the same texts follow on each other then.
-/
namespace StringReport

/-- Records are their own order just if they came in it. -/
theorem InOrder.eq_iff {α : Type} {offset : α → UInt64} {records ordered : List α}
    (h : InOrder offset records ordered) :
    records = ordered ↔ records.Pairwise fun a b => offset a ≤ offset b := by
  constructor
  · rintro rfl
    exact h.ascending
  · exact fun hpairs => InOrder.unique ⟨.refl _, hpairs, fun _ => rfl⟩ h

namespace Report

variable (policy : Policy)

/-- The line of a static string among those of an encoding. -/
def staticLine (width : Nat) (encoding : Encoding) (s : StaticString) : String :=
  (canvas policy).paint (offsetLine policy s.offset width (s.shown encoding))

/-- The lines of a half that lists the given strings, its label with their number first. -/
def staticHalf (width : Nat) (encoding : Encoding) (strings : List StaticString) : List String :=
  (canvas policy).blockLines (.subHeading (encodingLabel policy encoding) strings.length) ++
    strings.map (staticLine policy width encoding)

/-- The text of a section for static strings whose halves list the given strings. -/
def staticText (width : Nat) (half : Encoding → List StaticString) : String :=
  headingText policy "STATIC" ((half .ascii).length + (half .utf16).length) ++
    endedLines (staticHalf policy width .ascii (half .ascii) ++
      "" :: staticHalf policy width .utf16 (half .utf16))

/-- The strings of each encoding are listed as they came. -/
theorem draw_staticBlocks (strings : List StaticString) :
    (canvas policy).draw (staticBlocks policy .terminal strings).value =
      staticText policy (columnDigits (strings.map (·.offset)))
        fun encoding => strings.filter (·.encoding = encoding) := by
  have hhalf (width : Nat) (encoding : Encoding) (strings : List StaticString) :
      (encodingBlocks policy .terminal width encoding strings).value.flatMap
          (canvas policy).blockLines = staticHalf policy width encoding strings := by
    simp only [encodingBlocks, Traced.value_bind, Traced.value_each, Traced.value_pure,
      List.flatMap_cons]
    exact congrArg _ (flatMap_line _ _ _)
  have hcount := length_ofEncoding strings
  simp only [StaticString.ofEncoding] at hcount
  simp only [staticBlocks, Traced.value_bind, Traced.value_pure, List.cons_append,
    StaticString.ofEncoding, offsetWidth_eq]
  rw [draw_heading_cons, List.flatMap_append, List.flatMap_cons, hhalf, hhalf, staticText,
    ← hcount]
  rfl

/-! ## What a line tells -/

theorem newline_notMem_staticLine (width : Nat) (encoding : Encoding) (s : StaticString) :
    '\n' ∉ (staticLine policy width encoding s).toList := by
  have hinert := inert_offsetLine policy s.offset width
    (inert_terminal s.string (decide (encoding = .ascii)))
  rw [staticLine, ← lineFeeds_eq_zero, Canvas.lineFeeds_paint]
  exact hinert.lineFeeds

theorem newline_notMem_staticHalf (width : Nat) (encoding : Encoding)
    (strings : List StaticString) :
    ∀ line ∈ staticHalf policy width encoding strings, '\n' ∉ line.toList := by
  refine List.forall_mem_append.2 ⟨?_, fun line hline => ?_⟩
  · rw [Canvas.blockLines]
    split
    · exact Canvas.newline_notMem_subHeadingLines _ _ _
    · exact List.forall_mem_nil _
  · obtain ⟨s, -, rfl⟩ := List.mem_map.1 hline
    exact newline_notMem_staticLine policy width encoding s

/-- Sections that list as many strings are the same just if their lines are. -/
theorem staticText_eq_iff (width : Nat) {half half' : Encoding → List StaticString}
    (hlength : ∀ encoding, (half encoding).length = (half' encoding).length) :
    staticText policy width half = staticText policy width half' ↔
      ∀ encoding, (half encoding).map (staticLine policy width encoding) =
        (half' encoding).map (staticLine policy width encoding) := by
  have hfeeds (half : Encoding → List StaticString) :
      ∀ line ∈ staticHalf policy width .ascii (half .ascii) ++
        "" :: staticHalf policy width .utf16 (half .utf16), '\n' ∉ line.toList :=
    List.forall_mem_append.2 ⟨newline_notMem_staticHalf policy width .ascii _,
      List.forall_mem_cons.2 ⟨by decide, newline_notMem_staticHalf policy width .utf16 _⟩⟩
  have hhalf (encoding : Encoding) : (staticHalf policy width encoding (half encoding)).length =
      (staticHalf policy width encoding (half' encoding)).length := by
    simp only [staticHalf, List.length_append, List.length_map, hlength encoding]
  constructor
  · intro h
    rw [staticText, staticText, hlength .ascii, hlength .utf16] at h
    have hlines := endedLines_inj (hfeeds half) (hfeeds half') (String.append_right_inj _ |>.1 h)
    obtain ⟨hascii, hrest⟩ := List.append_inj hlines (hhalf .ascii)
    have hutf16 := (List.cons.inj hrest).2
    intro encoding
    cases encoding with
    | ascii =>
      rw [staticHalf, staticHalf, hlength .ascii] at hascii
      exact List.append_cancel_left hascii
    | utf16 =>
      rw [staticHalf, staticHalf, hlength .utf16] at hutf16
      exact List.append_cancel_left hutf16
  · intro h
    simp only [staticText, staticHalf, hlength, h]

/-- A brief report shows a string alone. -/
theorem staticLine_of_brief (hbrief : policy.isVerbose = false) (width : Nat)
    (encoding : Encoding) : staticLine policy width encoding = StaticString.shown encoding := by
  funext s
  have hline : offsetLine policy s.offset width (s.shown encoding) =
      .single .plain (s.shown encoding) := by
    rw [offsetLine, hbrief]
    rfl
  rw [staticLine, hline, Canvas.paint_single_plain]

/-- In a verbose report, a line tells the offset of its string. -/
theorem offset_eq_of_staticLine (hverbose : policy.isVerbose = true) {width : Nat}
    {encoding : Encoding} {s t : StaticString}
    (hs : (Hex.digits s.offset.toNat).length ≤ width)
    (ht : (Hex.digits t.offset.toNat).length ≤ width)
    (h : staticLine policy width encoding s = staticLine policy width encoding t) :
    s.offset = t.offset := by
  have hline (s : StaticString) : staticLine policy width encoding s =
      Hex.offset s.offset width ++ " " ++
        (canvas policy).paint (.single .value (s.shown encoding)) := by
    rw [staticLine, offsetLine, if_pos hverbose, Canvas.paint_push, StyledText.plain_eq,
      Canvas.paint_single_plain]
  have hlength {s : StaticString} (hs : (Hex.digits s.offset.toNat).length ≤ width) :
      (Hex.offset s.offset width).toList.length = 2 + width := by
    simp only [Hex.offset, String.toList_append, String.toList_ofList, List.length_append,
      Hex.length_padded, Nat.max_eq_left hs]
    rfl
  have htexts := congrArg String.toList h
  simp only [hline, String.toList_append, List.append_assoc] at htexts
  have hoffsets := (List.append_inj htexts ((hlength hs).trans (hlength ht).symm)).1
  exact Hex.offset_inj (String.toList_inj.1 hoffsets)

/-- A half shows its strings in ascending order: in a verbose report just if they came so. -/
theorem map_staticLine_eq_iff (hverbose : policy.isVerbose = true) {width : Nat}
    {encoding : Encoding} {strings ordered : List StaticString}
    (hwidth : ∀ s ∈ strings, (Hex.digits s.offset.toNat).length ≤ width)
    (h : InOrder (·.offset) strings ordered) :
    strings.map (staticLine policy width encoding) =
        ordered.map (staticLine policy width encoding) ↔
      strings.Pairwise fun s t => s.offset ≤ t.offset := by
  refine ⟨fun hlines => ?_, fun hpairs => by rw [← h.eq_iff.2 hpairs]⟩
  have hlength := h.perm.length_eq
  have hoffsets : strings.map (·.offset) = ordered.map (·.offset) := by
    refine List.ext_getElem (by simpa using hlength.symm) fun j hj hj' => ?_
    rw [List.length_map] at hj hj'
    have hline : staticLine policy width encoding strings[j] =
        staticLine policy width encoding ordered[j] := by
      have hentries := congrArg (·[j]?) hlines
      simpa [hj, hj'] using hentries
    rw [List.getElem_map, List.getElem_map]
    exact offset_eq_of_staticLine policy hverbose (hwidth _ (List.getElem_mem hj))
      (hwidth _ (h.perm.subset (List.getElem_mem hj'))) hline
  have hascending : (ordered.map (·.offset)).Pairwise (· ≤ ·) := List.pairwise_map.2 h.ascending
  rw [← hoffsets] at hascending
  exact List.pairwise_map.1 hascending

/-- The halves of the section list their strings as they came. They are listed in ascending order of
their offsets just if they came so, or, in a brief report, if the texts follow on each other as
they do in that order. -/
theorem exists_inOrder_draw_staticBlocks_iff (strings : List StaticString) :
    ∃ ordered : Encoding → List StaticString,
      (∀ encoding, InOrder (·.offset) (strings.filter (·.encoding = encoding))
        (ordered encoding)) ∧
      (canvas policy).draw (staticBlocks policy .terminal strings).value =
        staticText policy (columnDigits (strings.map (·.offset)))
          (fun encoding => strings.filter (·.encoding = encoding)) ∧
      ((canvas policy).draw (staticBlocks policy .terminal strings).value =
          staticText policy (columnDigits (strings.map (·.offset))) ordered ↔
        ∀ encoding,
          if policy.isVerbose then
            (strings.filter (·.encoding = encoding)).Pairwise fun s t => s.offset ≤ t.offset
          else
            (strings.filter (·.encoding = encoding)).map (StaticString.shown encoding) =
              (ordered encoding).map (StaticString.shown encoding)) := by
  have hdrawn := draw_staticBlocks policy strings
  have hordered (encoding : Encoding) : InOrder StaticString.offset
      (strings.filter (·.encoding = encoding)) _ := inOrder_mergeSort _
  refine ⟨_, hordered, hdrawn, ?_⟩
  rw [hdrawn, staticText_eq_iff policy _ fun encoding => (hordered encoding).perm.length_eq.symm]
  refine forall_congr' fun encoding => ?_
  cases hverbose : policy.isVerbose with
  | true =>
    refine map_staticLine_eq_iff policy hverbose (fun s hs => ?_) (hordered encoding)
    exact length_digits_le_columnDigits
      (List.mem_map_of_mem (List.mem_of_mem_filter hs))
  | false => rw [staticLine_of_brief policy hverbose]; rfl

/-- Two strings of one encoding, the one of the larger offset first. -/
def swappedSample : List StaticString := [⟨"late", 0x20, .ascii⟩, ⟨"early", 0x10, .ascii⟩]

/-- Neither tier lists them by ascending offset. -/
theorem draw_staticBlocks_swappedSample_ne :
    let ordered : Encoding → List StaticString
      | .ascii => [⟨"early", 0x10, .ascii⟩, ⟨"late", 0x20, .ascii⟩]
      | .utf16 => []
    let policy (verbosity : Verbosity) : Policy := ⟨verbosity, false, .never, false⟩
    (∀ encoding, InOrder (·.offset) (swappedSample.filter (·.encoding = encoding))
      (ordered encoding)) ∧
    (canvas (policy .verbose)).draw
      (staticBlocks (policy .verbose) .terminal swappedSample).value =
        "0x20 late\n0x10 early\n\n" ∧
    staticText (policy .verbose) 2 ordered = "0x10 early\n0x20 late\n\n" ∧
    (canvas (policy .brief)).draw (staticBlocks (policy .brief) .terminal swappedSample).value =
      "late\nearly\n\n" ∧
    staticText (policy .brief) 2 ordered = "early\nlate\n\n" ∧
    ∀ verbosity, (canvas (policy verbosity)).draw
        (staticBlocks (policy verbosity) .terminal swappedSample).value ≠
      staticText (policy verbosity) (columnDigits (swappedSample.map (·.offset))) ordered := by
  intro ordered policy
  have hordered (encoding : Encoding) : InOrder (·.offset)
      (swappedSample.filter (·.encoding = encoding)) (ordered encoding) := by
    cases encoding with
    | ascii =>
      refine ⟨.swap _ _ _, by decide, fun value => ?_⟩
      by_cases hlow : (0x10 : UInt64) = value
      · subst hlow
        decide
      · simp [swappedSample, ordered, List.filter_cons, hlow]
    | utf16 => exact ⟨.refl _, .nil, fun _ => rfl⟩
  have hwidth : columnDigits (swappedSample.map (·.offset)) = 2 := by decide
  have hverbose : (canvas (policy .verbose)).draw
      (staticBlocks (policy .verbose) .terminal swappedSample).value =
        "0x20 late\n0x10 early\n\n" := by decide +kernel
  have hbrief : (canvas (policy .brief)).draw
      (staticBlocks (policy .brief) .terminal swappedSample).value = "late\nearly\n\n" := by
    decide +kernel
  have hverbose' : staticText (policy .verbose) 2 ordered = "0x10 early\n0x20 late\n\n" := by
    decide +kernel
  have hbrief' : staticText (policy .brief) 2 ordered = "early\nlate\n\n" := by decide +kernel
  refine ⟨hordered, hverbose, hverbose', hbrief, hbrief', fun verbosity => ?_⟩
  rw [hwidth]
  cases verbosity with
  | brief => rw [hbrief, hbrief']; decide
  | verbose => rw [hverbose, hverbose']; decide

end Report
end StringReport
