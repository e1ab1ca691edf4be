import StringReport.Proofs.FilledTables
import StringReport.Proofs.RoutineGroups

/-!
# What the sanitizer is given

A report gives the sanitizer every value that it takes from the file, once, in the order in
which the values are shown. That order is written down here from the document alone; colors
and the output have no part in it, and the tier decides on the order of decoded strings only. What
is noted is all that is asked: two sanitizers that answer the noted calls alike make the same
report.
-/
namespace StringReport

/-! ## Notes of traced values -/

namespace Traced

variable {α β : Type}

@[simp] theorem calls_pure (a : α) : (Pure.pure a : Traced α).calls = [] := rfl

@[simp] theorem calls_bind (x : Traced α) (f : α → Traced β) :
    (x >>= f).calls = x.calls ++ (f x.value).calls := by
  simp only [calls, notes_bind, List.filterMap_append]

@[simp] theorem calls_map (f : α → β) (x : Traced α) : (f <$> x).calls = x.calls := by
  rw [← bind_pure_comp, calls_bind, calls_pure, List.append_nil]

@[simp] theorem calls_each (xs : List α) (f : α → Traced β) :
    (each xs f).calls = xs.flatMap fun x => (f x).calls := by
  simp only [calls, notes_each, List.filterMap_flatMap]

@[simp] theorem calls_tell (e : Event) : (tell e).calls = [] := rfl

@[simp] theorem calls_display (s : Sanitizer) (value : String) (asciiOnly : Bool) :
    (s.display value asciiOnly).calls = [(value, asciiOnly)] := rfl

/-- Work that asks its sanitizer nothing but what it notes: another one that answers these calls
in the same way leads to the same value and the same notes. -/
def Answered (work : Sanitizer → Traced α) : Prop :=
  ∀ s t : Sanitizer, (∀ call ∈ (work s).calls, t call.1 call.2 = s call.1 call.2) →
    work t = work s

theorem answered_const (x : Traced α) : Answered fun _ => x := fun _ _ _ => rfl

theorem answered_display (value : String) (asciiOnly : Bool) :
    Answered fun s => s.display value asciiOnly := by
  intro s t h
  have hanswer : t value asciiOnly = s value asciiOnly :=
    h (value, asciiOnly) (List.mem_singleton.2 rfl)
  simp only [Sanitizer.display, hanswer]

/-- What comes after may ask by the value so far, which is the same already. -/
theorem Answered.bind {work : Sanitizer → Traced α} {next : Sanitizer → α → Traced β}
    (hwork : Answered work) (hnext : ∀ a, Answered (next · a)) :
    Answered fun s => work s >>= next s := by
  intro s t h
  simp only [calls_bind, List.mem_append] at h
  have hfirst : work t = work s := hwork s t fun call hcall => h call (Or.inl hcall)
  have hlater : next t (work s).value = next s (work s).value :=
    hnext _ s t fun call hcall => h call (Or.inr hcall)
  refine Traced.ext ?_ ?_
  · rw [value_bind, hfirst, hlater, value_bind]
  · rw [notes_bind, hfirst, hlater, notes_bind]

theorem Answered.andThen {work : Sanitizer → Traced α} (hwork : Answered work)
    (next : α → Traced β) : Answered fun s => work s >>= next :=
  hwork.bind fun a => answered_const (next a)

theorem answered_each {work : Sanitizer → α → Traced β} (hwork : ∀ a, Answered (work · a))
    (xs : List α) : Answered fun s => each xs (work s) := by
  intro s t h
  simp only [calls_each, List.mem_flatMap] at h
  have hworks : ∀ a ∈ xs, work t a = work s a := fun a ha =>
    hwork a s t fun call hcall => h call ⟨a, ha, hcall⟩
  refine Traced.ext ?_ ?_
  · exact List.map_congr_left fun a ha => congrArg value (hworks a ha)
  · exact List.flatMap_congr fun a ha => congrArg notes (hworks a ha)

end Traced

/-! ## Sections -/

section Sections

variable (policy : Policy) (sanitizer : Sanitizer)

theorem calls_encodingBlocks (width : Nat) (encoding : Encoding) (strings : List StaticString) :
    (encodingBlocks policy sanitizer width encoding strings).calls =
      strings.map fun s => (s.string, decide (encoding = .ascii)) := by
  simp [encodingBlocks, ← List.map_eq_flatMap]

theorem calls_staticBlocks (strings : List StaticString) :
    (staticBlocks policy sanitizer strings).calls =
      (strings.filter (·.encoding = .ascii)).map (fun s => (s.string, true)) ++
        (strings.filter (·.encoding = .utf16)).map fun s => (s.string, false) := by
  simp [staticBlocks, calls_encodingBlocks, StaticString.ofEncoding]

theorem calls_languageBlocks (language : Language) (found missed : List LanguageString) :
    (languageBlocks policy sanitizer language found missed).calls =
      (LanguageString.sortByOffset (found ++ missed)).map fun s => (s.string, false) := by
  simp [languageBlocks, ← List.map_eq_flatMap]

theorem calls_plainLines (strings : List String) :
    (plainLines sanitizer strings).calls = strings.map fun s => (s, false) := by
  simp [plainLines, ← List.map_eq_flatMap]

theorem calls_frameBlocks (label : String) (strings : List FrameString) :
    (frameBlocks policy sanitizer label strings).calls =
      strings.map fun s => (s.string, false) := by
  cases h : policy.isVerbose with
  | true => simp [frameBlocks, h, frameRow, ← List.map_eq_flatMap]
  | false => simp [frameBlocks, h, calls_plainLines, Function.comp_def]

theorem calls_routineBlocks (group : UInt64 × List DecodedString) :
    (routineBlocks policy sanitizer group).calls =
      group.2.map fun s => (s.string, false) := by
  simp [routineBlocks, decodedRow, ← List.map_eq_flatMap]

end Sections

open Traced in
theorem calls_decodedBlocks (policy : Policy) (sanitizer : Sanitizer)
    (strings : List DecodedString) :
    (decodedBlocks policy sanitizer strings).calls =
      (if policy.isVerbose then
        (DecodedString.routines strings).flatMap (DecodedString.ofRoutine · strings)
      else strings).map fun s => (s.string, false) := by
  cases h : policy.isVerbose with
  | true =>
    simp only [decodedBlocks, h, if_true, calls_bind, calls_each, calls_tell, calls_pure,
      calls_routineBlocks, DecodedString.groupByRoutine_eq, List.flatMap_map, List.map_flatMap,
      List.append_nil]
  | false => simp [decodedBlocks, h, calls_plainLines, Function.comp_def]

section Answers

open Traced

variable (policy : Policy)

theorem answered_encodingBlocks (width : Nat) (encoding : Encoding)
    (strings : List StaticString) :
    Answered (encodingBlocks policy · width encoding strings) := by
  unfold encodingBlocks
  exact (answered_each (fun _ => (answered_display _ _).andThen _) strings).andThen _

theorem answered_plainLines (strings : List String) : Answered (plainLines · strings) := by
  unfold plainLines
  exact answered_each (fun _ => (answered_display _ _).andThen _) strings

theorem answered_staticBlocks (strings : List StaticString) :
    Answered (staticBlocks policy · strings) := by
  unfold staticBlocks
  exact (answered_encodingBlocks policy _ _ _).bind fun _ =>
    (answered_encodingBlocks policy _ _ _).andThen _

theorem answered_languageBlocks (language : Language) (found missed : List LanguageString) :
    Answered (languageBlocks policy · language found missed) := by
  unfold languageBlocks
  exact (answered_each (fun _ => (answered_display _ _).andThen _) _).andThen _

theorem answered_frameBlocks (label : String) (strings : List FrameString) :
    Answered (frameBlocks policy · label strings) := by
  unfold frameBlocks frameRow
  cases policy.isVerbose with
  | true =>
    exact (answered_each (fun _ => (answered_display _ _).andThen _) strings).andThen _
  | false => exact (answered_plainLines _).andThen _

theorem answered_routineBlocks (group : UInt64 × List DecodedString) :
    Answered (routineBlocks policy · group) := by
  unfold routineBlocks decodedRow
  exact (answered_each (fun _ => (answered_display _ _).andThen _) group.2).andThen _

theorem answered_decodedBlocks (strings : List DecodedString) :
    Answered (decodedBlocks policy · strings) := by
  unfold decodedBlocks
  cases policy.isVerbose with
  | true => exact (answered_each (answered_routineBlocks policy) _).andThen _
  | false => exact (answered_plainLines _).andThen _

theorem answered_sectionBlocks (doc : Document) (part : Section) :
    Answered (Report.sectionBlocks policy · doc part) := by
  cases part with
  | title =>
    simp only [Report.sectionBlocks, Document.metadataBlocks]
    exact ((answered_display _ _).andThen _).andThen _
  | static => exact answered_staticBlocks policy _
  | language language => exact answered_languageBlocks policy language _ _
  | stack => exact answered_frameBlocks policy _ _
  | tight => exact answered_frameBlocks policy _ _
  | decoded => exact answered_decodedBlocks policy _

theorem answered_draw (doc : Document) : Answered (Report.draw policy · doc) := by
  have hparts := answered_each (answered_sectionBlocks policy doc) (Report.sections policy doc)
  simp only [Report.draw, Report.blocks_eq_intercalate, map_eq_pure_bind]
  exact (hparts.andThen _).andThen _

end Answers

/-! ## Reports -/

namespace Document

/-- The decoded strings in the order of a report: as they came in a brief one, routine by
routine in a verbose one. -/
def decodedInOrder (doc : Document) : Verbosity → List DecodedString
  | .brief => doc.findings.decoded
  | .verbose => (DecodedString.routines doc.findings.decoded).flatMap
      (DecodedString.ofRoutine · doc.findings.decoded)

/-- The values of a report with their flags, given the strings of its language runtime in the
order in which they are listed. -/
def sanitizerLog (doc : Document) (ordered : List LanguageString) (verbosity : Verbosity)
    (headers : Bool) : List (String × Bool) :=
  (if headers then [(doc.metadata.filePath, false)] else []) ++
  (if doc.analysis.staticEnabled then
    (doc.findings.static.filter (·.encoding = .ascii)).map (fun s => (s.string, true)) ++
      (doc.findings.static.filter (·.encoding = .utf16)).map (fun s => (s.string, false))
  else []) ++
  (if doc.analysis.languageEnabled ∧
      (doc.metadata.language = "go" ∨ doc.metadata.language = "rust") then
    ordered.map fun s => (s.string, false)
  else []) ++
  (if doc.analysis.stackEnabled then doc.findings.stack.map fun s => (s.string, false)
  else []) ++
  (if doc.analysis.tightEnabled then doc.findings.tight.map fun s => (s.string, false)
  else []) ++
  if doc.analysis.decodedEnabled then
    (doc.decodedInOrder verbosity).map fun s => (s.string, false)
  else []

/-- The tier decides on the order of decoded strings, not on which there are. -/
theorem perm_decodedInOrder (doc : Document) :
    (doc.decodedInOrder .brief).Perm (doc.decodedInOrder .verbose) :=
  (DecodedString.perm_flatMap_ofRoutine doc.findings.decoded).symm

theorem perm_sanitizerLog (doc : Document) (ordered : List LanguageString) (headers : Bool) :
    (doc.sanitizerLog ordered .brief headers).Perm (doc.sanitizerLog ordered .verbose headers) := by
  refine List.Perm.append_left _ ?_
  split
  · exact doc.perm_decodedInOrder.map _
  · exact .refl _

/-- The language of the section, by the tags that have one. -/
theorem calls_languageSection (doc : Document) {α : Type} (calls : List α) :
    (doc.language?.toList.flatMap fun _ => calls) =
      if doc.analysis.languageEnabled ∧
          (doc.metadata.language = "go" ∨ doc.metadata.language = "rust") then calls else [] := by
  unfold language? Language.ofTag?
  split_ifs <;> simp_all

end Document

namespace Report

open Traced in
theorem calls_draw (policy : Policy) (sanitizer : Sanitizer) (doc : Document) :
    (draw policy sanitizer doc).calls =
      doc.sanitizerLog
        (LanguageString.sortByOffset (doc.findings.language ++ doc.findings.languageMissed))
        policy.verbosity policy.headers := by
  have hdecoded : (if policy.isVerbose then
        (DecodedString.routines doc.findings.decoded).flatMap
          (DecodedString.ofRoutine · doc.findings.decoded)
      else doc.findings.decoded) = doc.decodedInOrder policy.verbosity := by
    unfold Policy.isVerbose Document.decodedInOrder
    cases policy.verbosity <;> rfl
  have hone {p : Bool} {s : Section} {f : Section → List (String × Bool)} :
      (if p then [s] else []).flatMap f = if p then f s else [] := by
    cases p <;> simp
  simp only [draw, blocks_eq_intercalate, calls_bind, calls_map, calls_each, calls_pure,
    List.append_nil, sections, List.flatMap_append, hone, Option.toList_map, List.flatMap_map,
    sectionBlocks, calls_staticBlocks, calls_languageBlocks, calls_frameBlocks,
    calls_decodedBlocks, hdecoded, Document.calls_languageSection, Document.metadataBlocks,
    calls_tell, calls_display, Document.sanitizerLog]

end Report

/-- A report calls the sanitizer on exactly the values of its sections, each once and in order;
between the tiers their order differs, but not which there are. It depends on the sanitizer by
the answers to these calls only. -/
theorem exists_calls_render_eq_sanitizerLog (doc : Document) :
    ∃ ordered, InOrder LanguageString.offset
        (doc.findings.language ++ doc.findings.languageMissed) ordered ∧
      (∀ (options : Options) (mode : ColorMode) (terminal : Bool) (sanitizer : Sanitizer),
        ColorMode.ofPreference? options.color = some mode →
        ∃ report, Report.render options terminal sanitizer doc = .ok report ∧
          report.calls =
            doc.sanitizerLog ordered options.verbosity (!options.disableHeaders) ∧
          ∀ other : Sanitizer,
            (∀ call ∈ report.calls, other call.1 call.2 = sanitizer call.1 call.2) →
            Report.render options terminal other doc = .ok report) ∧
      ∀ headers, (doc.sanitizerLog ordered .brief headers).Perm
        (doc.sanitizerLog ordered .verbose headers) := by
  refine ⟨_, LanguageString.inOrder_sortByOffset _, ?_, doc.perm_sanitizerLog _⟩
  intro options mode terminal sanitizer hcolor
  refine ⟨_, Report.render_of_color hcolor terminal sanitizer doc, Report.calls_draw _ _ _, ?_⟩
  intro other hanswers
  rw [Report.render_of_color hcolor]
  exact congrArg Except.ok (answered_draw _ doc sanitizer other hanswers)

/-- A document with static strings in both encodings, language strings that are not in order,
and decoded strings of two routines in turn; the stack strings are not reported. -/
def mixedSample : Document where
  metadata := { filePath := "a.exe", language := "go" }
  analysis := { stackEnabled := false }
  findings := {
    stack := [{ function := 1, string := "hidden", programCounter := 1, frameOffset := 1 }]
    decoded := [{ region := .heap, string := "d1", decodedAt := 1, routine := 7 },
      { region := .heap, string := "d2", decodedAt := 2, routine := 5 },
      { region := .stack, string := "d3", decodedAt := 3, routine := 7 }]
    static := [⟨"wide", 1, .utf16⟩, ⟨"thin", 2, .ascii⟩]
    language := [⟨"later", 9⟩]
    languageMissed := [⟨"sooner", 4⟩] }

theorem calls_render_mixedSample :
    ∃ report, Report.render ⟨.verbose, false, "always"⟩ false .terminal mixedSample = .ok report ∧
      report.calls = [("a.exe", false), ("thin", true), ("wide", false), ("sooner", false),
        ("later", false), ("d1", false), ("d3", false), ("d2", false)] ∧
      Report.render ⟨.verbose, false, "always"⟩ false
        (fun value asciiOnly => if value = "hidden" then "" else Sanitizer.terminal value asciiOnly)
        mixedSample = .ok report := by
  obtain ⟨ordered, hordered, hlog, -⟩ := exists_calls_render_eq_sanitizerLog mixedSample
  obtain ⟨report, hreport, hcalls, hanswers⟩ :=
    hlog ⟨.verbose, false, "always"⟩ .always false .terminal rfl
  have hsorted : InOrder LanguageString.offset
      (mixedSample.findings.language ++ mixedSample.findings.languageMissed)
      [⟨"sooner", 4⟩, ⟨"later", 9⟩] := by
    refine ⟨List.Perm.swap _ _ _, by decide, fun offset => ?_⟩
    by_cases h : (4 : UInt64) = offset
    · subst h
      decide
    · simp [mixedSample, List.filter_cons, h]
  rw [hordered.unique hsorted] at hcalls
  have hvalues : report.calls = [("a.exe", false), ("thin", true), ("wide", false),
      ("sooner", false), ("later", false), ("d1", false), ("d3", false), ("d2", false)] :=
    hcalls.trans (by decide)
  refine ⟨report, hreport, hvalues, hanswers _ fun call hcall => if_neg ?_⟩
  have hshown : ∀ call ∈ report.calls, call.1 ≠ "hidden" := by
    rw [hvalues]
    decide
  exact hshown call hcall

end StringReport
