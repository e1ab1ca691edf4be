import StringReport.Proofs.FilledTables

/-!
# The blocks of sections

There are few kinds of blocks that the sections after the title are made of. What is to hold of
every block of every section is shown for each kind once.
-/
namespace StringReport

/-- The labels in the headings of sections. -/
def sectionLabels : List String := ["STATIC", "GO", "RUST", "STACK", "TIGHT", "DECODED"]

/-- The blocks of sections that tell about records. -/
inductive SectionBlock (policy : Policy) (sanitizer : Sanitizer) : Block → Prop
  | heading {label : String} (count : Nat) :
    label ∈ sectionLabels → SectionBlock policy sanitizer (sectionHeading policy label count)
  | encoding (encoding : Encoding) (count : Nat) :
    SectionBlock policy sanitizer (.subHeading (encodingLabel policy encoding) count)
  | routine (address : UInt64) (count : Nat) :
    SectionBlock policy sanitizer
      (.subHeading ((StyledText.plain " FUNCTION at ").push (Hex.address address) .accent) count)
  | offsetLine (offset : UInt64) (width : Nat) (value : String) (asciiOnly : Bool) :
    SectionBlock policy sanitizer
      (.line (offsetLine policy offset width (sanitizer value asciiOnly)))
  | plainLine (value : String) :
    SectionBlock policy sanitizer (.line (.plain (sanitizer value false)))
  | frames (strings : List FrameString) :
    SectionBlock policy sanitizer
      (.grid (frameGrid policy (strings.map fun s => (frameRow sanitizer s).value)))
  | decoded (strings : List DecodedString) :
    SectionBlock policy sanitizer
      (.grid (decodedGrid policy (strings.map fun s => (decodedRow sanitizer s).value)))
  | blank : SectionBlock policy sanitizer .blank

namespace SectionBlock

variable {policy : Policy} {sanitizer : Sanitizer}

theorem of_mem_encodingBlocks {width : Nat} {encoding : Encoding} {strings : List StaticString}
    {block : Block}
    (h : block ∈ (encodingBlocks policy sanitizer width encoding strings).value) :
    SectionBlock policy sanitizer block := by
  simp only [encodingBlocks, Traced.value_bind, Traced.value_each, Traced.value_pure,
    List.mem_cons, List.mem_map] at h
  rcases h with rfl | ⟨s, -, rfl⟩
  · exact .encoding encoding _
  · exact .offsetLine _ _ _ _

theorem of_mem_staticBlocks {strings : List StaticString} {block : Block}
    (h : block ∈ (staticBlocks policy sanitizer strings).value) :
    SectionBlock policy sanitizer block := by
  simp only [staticBlocks, Traced.value_bind, Traced.value_pure, List.cons_append, List.mem_cons,
    List.mem_append] at h
  rcases h with rfl | h | rfl | h
  · exact .heading _ (by decide)
  · exact of_mem_encodingBlocks h
  · exact .blank
  · exact of_mem_encodingBlocks h

theorem of_mem_languageBlocks {language : Language} {found missed : List LanguageString}
    {block : Block}
    (h : block ∈ (languageBlocks policy sanitizer language found missed).value) :
    SectionBlock policy sanitizer block := by
  simp only [languageBlocks, Traced.value_bind, Traced.value_each, Traced.value_pure,
    List.mem_cons, List.mem_map] at h
  rcases h with rfl | ⟨s, -, rfl⟩
  · exact .heading _ (by cases language <;> decide)
  · exact .offsetLine _ _ _ _

theorem of_mem_plainLines {strings : List String} {block : Block}
    (h : block ∈ (plainLines sanitizer strings).value) : SectionBlock policy sanitizer block := by
  simp only [plainLines, Traced.value_each, List.mem_map] at h
  obtain ⟨s, -, rfl⟩ := h
  exact .plainLine s

theorem of_mem_frameBlocks {label : String} (hlabel : label ∈ sectionLabels)
    {strings : List FrameString} {block : Block}
    (h : block ∈ (frameBlocks policy sanitizer label strings).value) :
    SectionBlock policy sanitizer block := by
  cases hv : policy.isVerbose with
  | true =>
    simp only [frameBlocks, hv, if_true, Traced.value_bind, Traced.value_each,
      Traced.value_pure, List.mem_cons] at h
    rcases h with rfl | h
    · exact .heading _ hlabel
    · split at h
      · cases h
      · rw [List.mem_singleton.1 h]
        exact .frames strings
  | false =>
    simp only [frameBlocks, hv, Bool.false_eq_true, if_false, Traced.value_bind,
      Traced.value_pure, List.mem_cons] at h
    rcases h with rfl | h
    · exact .heading _ hlabel
    · exact of_mem_plainLines h

theorem of_mem_routineBlocks {group : UInt64 × List DecodedString} {block : Block}
    (h : block ∈ (routineBlocks policy sanitizer group).value) :
    SectionBlock policy sanitizer block := by
  simp only [routineBlocks, Traced.value_bind, Traced.value_each, Traced.value_pure,
    List.mem_cons, List.not_mem_nil, or_false] at h
  rcases h with rfl | rfl | rfl
  · exact .routine group.1 _
  · exact .decoded group.2
  · exact .blank

theorem of_mem_decodedBlocks {strings : List DecodedString} {block : Block}
    (h : block ∈ (decodedBlocks policy sanitizer strings).value) :
    SectionBlock policy sanitizer block := by
  cases hv : policy.isVerbose with
  | true =>
    simp only [decodedBlocks, hv, if_true, Traced.value_bind, Traced.value_each,
      Traced.value_pure, List.mem_cons, List.mem_flatten, List.mem_map] at h
    rcases h with rfl | ⟨blocks, ⟨group, -, rfl⟩, h⟩
    · exact .heading _ (by decide)
    · exact of_mem_routineBlocks h
  | false =>
    simp only [decodedBlocks, hv, Bool.false_eq_true, if_false, Traced.value_bind,
      Traced.value_pure, List.mem_cons] at h
    rcases h with rfl | h
    · exact .heading _ (by decide)
    · exact of_mem_plainLines h

/-- Every section but the title is made of such blocks. -/
theorem of_mem_sectionBlocks {doc : Document} {part : Section} (hpart : part ≠ .title)
    {block : Block} (h : block ∈ (Report.sectionBlocks policy sanitizer doc part).value) :
    SectionBlock policy sanitizer block := by
  cases part with
  | title => exact absurd rfl hpart
  | static => exact of_mem_staticBlocks h
  | language language => exact of_mem_languageBlocks h
  | stack => exact of_mem_frameBlocks (by decide) h
  | tight => exact of_mem_frameBlocks (by decide) h
  | decoded => exact of_mem_decodedBlocks h

end SectionBlock
end StringReport
