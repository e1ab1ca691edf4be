import Mathlib
import StringReport.Proofs.AcceptedDocuments
import StringReport.Proofs.DocumentPlaces
import StringReport.Proofs.FilledTables
import StringReport.Proofs.JoinedSections
import StringReport.Proofs.RecordCounts
import StringReport.Proofs.TameReports

/-!
# The start date as it was written

A timestamp is read into numbers and displayed from them. Each number is written in a fixed count
of digits, and only one text of so many digits has the number, so date and time are displayed
just as they were written; the offset and what is left of the second have no part in it. Only a
leap second has no number of its own and is displayed as the second before it.
-/
namespace StringReport

namespace Timestamp

/-! ## Digits -/

theorem eq_of_digitValue {c d : Char} (hc : c.isDigit) (hd : d.isDigit)
    (h : c.toNat - '0'.toNat = d.toNat - '0'.toNat) : c = d := by
  simp only [Char.isDigit, Bool.and_eq_true, decide_eq_true_eq] at hc hd
  have hcle : '0'.toNat ≤ c.toNat := hc.1
  have hdle : '0'.toNat ≤ d.toNat := hd.1
  exact Char.toNat_inj.1 (by omega)

theorem ofDigitChars_cons_zero (c : Char) (text : List Char) :
    Nat.ofDigitChars 10 (c :: text) 0 =
      Nat.ofDigitChars 10 text 0 + 10 ^ text.length * (c.toNat - '0'.toNat) := by
  rw [Nat.ofDigitChars_cons, Nat.ofDigitChars_eq_ofDigitChars_zero, Nat.mul_zero, Nat.zero_add,
    Nat.add_comm]

/-- Two texts of equally many digits have different numbers, unless they are the same. -/
theorem digits_inj {text text' : List Char} (hdigits : ∀ c ∈ text, c.isDigit)
    (hdigits' : ∀ c ∈ text', c.isDigit) (hlength : text.length = text'.length)
    (h : Nat.ofDigitChars 10 text 0 = Nat.ofDigitChars 10 text' 0) : text = text' := by
  induction text generalizing text' with
  | nil => exact (List.length_eq_zero_iff.1 hlength.symm).symm
  | cons c text ih =>
    cases text' with
    | nil => cases hlength
    | cons d text' =>
      rw [List.forall_mem_cons] at hdigits hdigits'
      have hlength' : text.length = text'.length := Nat.succ.inj hlength
      have hpos : 0 < 10 ^ text.length := Nat.pow_pos (by decide)
      have hlt' := ofDigitChars_lt hdigits'.2
      rw [ofDigitChars_cons_zero, ofDigitChars_cons_zero, ← hlength'] at h
      rw [← hlength'] at hlt'
      -- the first digit is the quotient, the others are the rest
      obtain ⟨hfirst, hlater⟩ := (Nat.div_mod_unique hpos).2 ⟨h, ofDigitChars_lt hdigits.2⟩
      obtain ⟨hfirst', hlater'⟩ := (Nat.div_mod_unique hpos).2 ⟨rfl, hlt'⟩
      rw [eq_of_digitValue hdigits.1 hdigits'.1 (hfirst.symm.trans hfirst'),
        ih hdigits.2 hdigits'.2 hlength' (hlater.symm.trans hlater')]

theorem InDigits.unique {count n : Nat} {text text' : List Char} (h : InDigits count n text)
    (h' : InDigits count n text') : text = text' :=
  digits_inj h.digits h'.digits (h.length.trans h'.length.symm) (h.value.trans h'.value.symm)

/-- A number is read in so many digits just from the text that is written of it. -/
theorem InDigits.eq_padded {count n : Nat} {text : List Char} (h : InDigits count n text)
    (hcount : 0 < count) : padded count n = text :=
  (inDigits_padded hcount h.lt).unique h

/-! ## Dates and clocks -/

/-- The seconds of a clock as they are shown, a leap second like the one before it. -/
def shownSeconds (seconds : List Char) : List Char :=
  if seconds = ['6', '0'] then ['5', '9'] else seconds

theorem Ticks.shownSeconds_eq {t : Timestamp} {second nanosecond : Nat}
    (h : t.Ticks second nanosecond) {seconds : List Char} (hseconds : InDigits 2 second seconds) :
    shownSeconds seconds = padded 2 t.time.second := by
  unfold shownSeconds
  rcases h with ⟨rfl, -⟩ | ⟨rfl, hsecond, -⟩
  · rw [if_neg, hseconds.eq_padded (by decide)]
    rintro rfl
    have hvalue : 60 = t.time.second := hseconds.value
    have hrange := t.time.second_range
    omega
  · have hsixty : padded 2 60 = ['6', '0'] := by decide
    rw [if_pos ((hseconds.eq_padded (by decide)).symm.trans hsixty), hsecond]
    decide

/-- A clock of eight characters as it is shown. -/
def shownClock (clock : List Char) : List Char := clock.take 6 ++ shownSeconds (clock.drop 6)

/-- What is shown of the text of a timestamp: its date, and its clock to the second. -/
def shownText (text : List Char) : List Char :=
  text.take 10 ++ ' ' :: shownClock ((text.drop 11).take 8)

/-- A timestamp is displayed as it was written. -/
theorem Text.display_eq {t : Timestamp} {text : List Char} (h : t.Text text) :
    t.display = String.ofList (shownText text) := by
  cases h with
  | @mk year second nanosecond separator yearDigits monthDigits dayDigits hourDigits minuteDigits
      secondDigits fraction offset hyear heq hmonth hday _ hhour hminute hsecond _ hticks _ =>
    have hdate : dateText t.date = yearDigits ++ '-' :: (monthDigits ++ '-' :: dayDigits) := by
      rw [dateText, heq, yearText_natCast, hyear.eq_padded (by decide),
        hmonth.eq_padded (by decide), hday.eq_padded (by decide)]
      simp
    have hclock : clockText t.time =
        hourDigits ++ ':' :: (minuteDigits ++ ':' :: shownSeconds secondDigits) := by
      rw [clockText, hhour.eq_padded (by decide), hminute.eq_padded (by decide),
        hticks.shownSeconds_eq hsecond]
      simp
    obtain ⟨y₁, y₂, y₃, y₄, rfl⟩ := List.length_eq_four.1 hyear.length
    obtain ⟨o₁, o₂, rfl⟩ := List.length_eq_two.1 hmonth.length
    obtain ⟨d₁, d₂, rfl⟩ := List.length_eq_two.1 hday.length
    obtain ⟨h₁, h₂, rfl⟩ := List.length_eq_two.1 hhour.length
    obtain ⟨m₁, m₂, rfl⟩ := List.length_eq_two.1 hminute.length
    obtain ⟨s₁, s₂, rfl⟩ := List.length_eq_two.1 hsecond.length
    rw [display, hdate, hclock]
    rfl

end Timestamp

open Json

/-! ## Reports -/

theorem Document.metadataRows_verbose (doc : Document) (path : String) :
    ∃ after, doc.metadataRows true path =
      [(padRight "file path" Metadata.leftWidth, padRight path Metadata.rightWidth)] ++
        [("start date", doc.metadata.timings.startDate.display)] ++ after := by
  simp [metadataRows, runRows]

namespace Report

/-- A verbose report with a title tells the start date in a line of its own. -/
theorem startDate_mem_lines {policy : Policy} (hheaders : policy.headers = true)
    (hverbose : policy.isVerbose = true) (sanitizer : Sanitizer) (doc : Document) :
    ∃ left right, metadataLine left right "start date" doc.metadata.timings.startDate.display ∈
      lines policy sanitizer doc := by
  let path := (sanitizer.display doc.metadata.filePath false).value
  obtain ⟨after, hrows⟩ := doc.metadataRows_verbose path
  have hinert : ∀ row ∈ [("start date", doc.metadata.timings.startDate.display)],
      Document.InertLine row :=
    List.forall_mem_singleton.2 (Document.inertLine (by decide) (inert_display _))
  obtain ⟨above, below, left, right, hdrawn⟩ := (canvas policy).exists_gridLines_metadataGrid
    [(padRight "file path" Metadata.leftWidth, padRight path Metadata.rightWidth)] after hinert
    (List.cons_ne_nil _ _)
  have hblock : Block.grid (Document.metadataGrid (doc.metadataRows policy.isVerbose path)) ∈
      (sectionBlocks policy sanitizer doc .title).value :=
    List.mem_cons_of_mem _ (List.mem_cons_of_mem _ List.mem_cons_self)
  refine ⟨left, right, mem_lines_of_title hheaders hblock ?_⟩
  rw [hverbose, hrows]
  show _ ∈ (canvas policy).gridLines _
  rw [hdrawn]
  simp

end Report

/-! ## Documents -/

namespace Document

variable {text : String} {doc : Document} {fill : Tree → Tree} {body : List Char} {date : String}

theorem startDate_display_eq (hread : ofText text = .ok doc) (hfill : DateGap fill)
    (htext : IsText (fill (.string body)) text.toList) (hdate : Spells body date.toList) :
    doc.metadata.timings.startDate.display = String.ofList (Timestamp.shownText date.toList) := by
  rw [ofText_eq_ok_of_isText htext] at hread
  obtain ⟨written, ⟨_, ⟨rfl⟩, hspells⟩, htimestamp⟩ := hfill.opens.part hread
  obtain rfl := name_eq_of_spells hspells hdate
  exact htimestamp.display_eq

/-- The start date of an accepted text is shown as it was written there: its first ten
characters, a space, and those from the twelfth to the nineteenth, of which the last two are 59
where they were 60. It stands in the second row of the metadata and in a line of every verbose
report with headers. -/
theorem startDate_as_written (hread : ofText text = .ok doc) (hfill : DateGap fill)
    (htext : IsText (fill (.string body)) text.toList) (hdate : Spells body date.toList) :
    (∀ path, (doc.metadataRows true path)[1]? =
      some ("start date", String.ofList (Timestamp.shownText date.toList))) ∧
    ∀ (color : String) (mode : ColorMode) (terminal : Bool) (sanitizer : Sanitizer),
      ColorMode.ofPreference? color = some mode →
        ∃ report lines left right,
          Report.render ⟨.verbose, false, color⟩ terminal sanitizer doc = .ok report ∧
          report.value = endedLines lines ∧
          metadataLine left right "start date" (String.ofList (Timestamp.shownText date.toList)) ∈
            lines := by
  rw [← startDate_display_eq hread hfill htext hdate]
  refine ⟨fun path => ?_, fun color mode terminal sanitizer hmode => ?_⟩
  · obtain ⟨after, hrows⟩ := doc.metadataRows_verbose path
    rw [hrows]
    rfl
  · let policy := Policy.make .verbose true mode terminal
    obtain ⟨left, right, hline⟩ :=
      Report.startDate_mem_lines (show policy.headers = true from rfl) rfl sanitizer doc
    exact ⟨_, _, left, right, Report.render_of_color hmode terminal sanitizer doc,
      Report.value_draw _ sanitizer doc, hline⟩

/-- A document that says nothing but when its run started. -/
def datedTree (date : Tree) : Tree :=
  .list ([] ++ .list ([.string ['a'], .string [], .number ⟨false, ['0'], none, none⟩,
    .number ⟨false, ['0'], none, none⟩] ++ .list ([] ++ date :: []) :: []) :: [.list [], .list []])

/-- A run that started in the leap second at the end of a year, by a clock that is an hour
ahead. -/
def datedText : String := "[[\"a\",\"\",0,0,[\"2017-01-01T00:59:60.75+01:00\"]],[],[]]"

/-- The start date is shown in local time and without its fraction, the leap second as the last
second before it. -/
theorem startDate_as_written_dated :
    ∃ doc, ofText datedText = .ok doc ∧ DateGap datedTree ∧
      IsText (datedTree (.string "2017-01-01T00:59:60.75+01:00".toList)) datedText.toList ∧
      (doc.metadataRows true "a")[1]? = some ("start date", "2017-01-01 00:59:59") := by
  have haccepted : (ofText datedText).toOption.isSome = true := by cbv
  obtain ⟨doc, hread⟩ : ∃ doc, ofText datedText = .ok doc := by
    cases hread : ofText datedText with
    | ok doc => exact ⟨doc, rfl⟩
    | error fault =>
      rw [hread] at haccepted
      cases haccepted
  have hmetadata : GapIn columns "metadata"
      fun part => .list ([] ++ part :: [.list [], .list []]) :=
    .item (by decide : 0 < columns.length) rfl
  have htimings : GapIn Metadata.columns "runtime"
      fun part => .list ([.string ['a'], .string [], .number ⟨false, ['0'], none, none⟩,
        .number ⟨false, ['0'], none, none⟩] ++ part :: []) :=
    .item (by decide : 4 < Metadata.columns.length) rfl
  have hstart : GapIn Timings.columns "start_date" fun part => .list ([] ++ part :: []) :=
    .item (by decide : 0 < Timings.columns.length) rfl
  have hgap : DateGap datedTree := .mk hmetadata htimings hstart
  have htext : IsText (datedTree (.string "2017-01-01T00:59:60.75+01:00".toList))
      datedText.toList := by
    rw [isText_iff_tree]
    cbv
  have hdecode : (⟨"2017-01-01T00:59:60.75+01:00".toList, true, 0⟩ : RawString).decode =
      .ok "2017-01-01T00:59:60.75+01:00" := by cbv
  have hspells := (RawString.decode_eq_ok.1 hdecode).2
  obtain ⟨hrow, -⟩ := startDate_as_written hread hgap htext hspells
  exact ⟨doc, hread, hgap, htext, hrow "a"⟩

end Document
end StringReport
