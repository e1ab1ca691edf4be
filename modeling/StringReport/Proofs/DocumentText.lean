import StringReport.Proofs.AcceptedDocuments
import StringReport.Proofs.ReadingBack
import StringReport.Proofs.WrittenGrammar

/-!
# Documents read back from their text

Every record is read back from what is written of it, field by field, and the table of scores
from its members, since they are written in the order in which the table keeps them. So a
document is read back whole, if its date has a place in the format and its real numbers are
read back one by one.
-/
namespace StringReport

namespace Json

/-! ## Tables -/

theorem writtenChar_of_isDigit {c : Char} (h : c.isDigit) : writtenChar c = [c] := by
  have hother (d : Char) (hd : ¬ d.isDigit) : c ≠ d := ne_of_isDigit h hd
  have hspace : ¬ c.toNat < 0x20 := Nat.not_lt.2 (le_toNat_of_isDigit h)
  simp only [writtenChar, hother '"' (by decide), hother '\\' (by decide),
    hother '\x08' (by decide), hother '\x0c' (by decide), hother '\n' (by decide),
    hother '\r' (by decide), hother '\t' (by decide), hspace, if_false]

/-- A number between the quotes of a key is written in its digits. -/
theorem flatMap_writtenChar_toString (n : Nat) :
    (toString n).toList.flatMap writtenChar = Nat.toDigits 10 n := by
  have htext : (toString n).toList = Nat.toDigits 10 n := by simp
  rw [htext, List.flatMap_congr fun c hc =>
    writtenChar_of_isDigit (Numeral.isDigit_of_mem_digits hc)]
  exact List.flatMap_singleton' _

theorem meansAddress_toDigits (n : UInt64) :
    Tree.MeansAddress (Nat.toDigits 10 n.toNat) n :=
  ⟨Numeral.isWhole_toDigits n.toNat, Nat.ofDigitChars_toDigits (by decide) (by decide)⟩

/-- A number is read back from a key. -/
theorem numericKey_written (n : UInt64) (beyond : Nat) :
    numericKey (.written (toString n.toNat) beyond) = .ok n := by
  have haddress := meansAddress_toDigits n
  have hunbroken : Unbroken (Nat.toDigits 10 n.toNat) :=
    (stringText_of_isDigits haddress.1.1.2).unbroken
  simp only [RawString.written, flatMap_writtenChar_toString]
  exact (numericKey_eq_ok hunbroken).2 ⟨rfl, haddress⟩

/-- A table is read back entry by entry. -/
theorem reads_table {α β : Type} {value : Decoder α} {encode : α → Value}
    {entries : List (UInt64 × α)} (h : ∀ entry ∈ entries, Reads value (encode entry.2) entry.2)
    (empty : β) (put : β → UInt64 → α → β) :
    Reads (table value empty put)
      (.object (entries.map fun entry => (toString entry.1.toNat, encode entry.2)))
      (entries.foldl (fun built entry => put built entry.1 entry.2) empty) := by
  intro node hnode
  rcases hnode with ⟨⟩ | ⟨⟩ | ⟨⟩ | ⟨⟩ | ⟨⟩ | ⟨⟩ | ⟨hmembers⟩
  next nodes =>
  have hfold : nodes.foldlM (fun built member => do
      let address ← numericKey member.1
      let v ← value member.2
      .ok (put built address v)) empty =
      .ok (entries.foldl (fun built entry => put built entry.1 entry.2) empty) := by
    induction entries generalizing nodes empty with
    | nil =>
      rcases hmembers with ⟨⟩
      rfl
    | cons entry entries ih =>
      rcases hmembers with ⟨⟩ | ⟨hnode, hlater⟩
      have hvalue := h entry List.mem_cons_self _ hnode
      have hlater := ih (fun e he => h e (List.mem_cons_of_mem _ he))
        (put empty entry.1 entry.2) hlater
      rw [List.foldlM_cons, List.foldl_cons]
      simp only [numericKey_written, hvalue, bind, Except.bind]
      exact hlater
  rw [table, hfold]
  rfl

end Json

/-! ## Scores -/

namespace ScoreTable

/-- An address above all others is put last. -/
theorem insertEntry_of_lt {address : UInt64} {score : Score} {entries : List (UInt64 × Score)}
    (h : ∀ entry ∈ entries, entry.1 < address) :
    insertEntry address score entries = entries ++ [(address, score)] := by
  induction entries with
  | nil => rfl
  | cons entry entries ih =>
    have hfirst := h entry List.mem_cons_self
    have hbelow : ¬ address < entry.1 := fun hlt => UInt64.lt_irrefl _ (UInt64.lt_trans hlt hfirst)
    have hne : address ≠ entry.1 := fun heq => UInt64.lt_irrefl _ (heq ▸ hfirst)
    rw [insertEntry, if_neg hbelow, if_neg hne,
      ih fun other hother => h other (List.mem_cons_of_mem _ hother), List.cons_append]

/-- Entries that follow on those of a table are put into it in their order. -/
theorem entries_foldl_insert (table : ScoreTable) {entries : List (UInt64 × Score)}
    (h : (table.entries ++ entries).Pairwise fun a b => a.1 < b.1) :
    (entries.foldl (fun built entry => built.insert entry.1 entry.2) table).entries =
      table.entries ++ entries := by
  induction entries generalizing table with
  | nil => simp
  | cons entry entries ih =>
    have hbelow : ∀ other ∈ table.entries, other.1 < entry.1 := fun other hother =>
      (List.pairwise_append.1 h).2.2 other hother entry List.mem_cons_self
    have hinsert : (table.insert entry.1 entry.2).entries = table.entries ++ [entry] :=
      insertEntry_of_lt hbelow
    rw [List.foldl_cons, ih (table.insert entry.1 entry.2), hinsert, List.append_assoc,
      List.singleton_append]
    rwa [hinsert, List.append_assoc, List.singleton_append]

/-- A table is what its entries put into an empty one make. -/
theorem foldl_insert_entries (table : ScoreTable) :
    table.entries.foldl (fun built entry => built.insert entry.1 entry.2) empty = table := by
  have hentries := entries_foldl_insert empty table.ascending
  cases hbuilt : table.entries.foldl (fun built entry => built.insert entry.1 entry.2) empty with
  | mk entries ascending =>
    rw [hbuilt] at hentries
    subst hentries
    rfl

end ScoreTable

/-! ## Records -/

open Json

/-- The real numbers of a run. -/
def Timings.reals (t : Timings) : List Binary64 :=
  [t.total, t.emulation, t.findFeatures, t.staticStrings, t.languageStrings, t.stackStrings,
    t.decodedStrings, t.tightStrings]

/-- The real numbers of a document. -/
def Document.reals (d : Document) : List Binary64 :=
  d.metadata.timings.reals ++
    d.analysis.functions.candidates.entries.map fun entry => entry.2.score

theorem reads_timestamp {t : Timestamp} (h : t.Writable) :
    Reads Timestamp.decode (.string t.text) t := by
  rintro node ⟨⟩
  show (do let text ← RawString.decode _; _) = _
  simp only [RawString.decode_written, bind, Except.bind, Timestamp.read_text h]

theorem reads_encoding (e : Encoding) : Reads Encoding.decode (.string e.label) e := by
  cases e with
  | ascii => exact reads_variant (by decide)
  | utf16 => exact reads_variant (by decide)

theorem reads_region (r : Region) : Reads Region.decode (.string r.label) r := by
  cases r with
  | stack => exact reads_variant (by decide)
  | global => exact reads_variant (by decide)
  | heap => exact reads_variant (by decide)

theorem reads_timings {t : Timings} (hdate : t.startDate.Writable)
    (hreals : ∀ x ∈ t.reals, x.ReadsBack) : Reads Timings.schema.decode t.toJson t := by
  have hfields := reads_record Timings.schema (by decide)
    (.cons (reads_timestamp hdate) <|
      .cons (reads_real (hreals t.total (by simp [Timings.reals]))) <|
      .cons (reads_real (hreals t.emulation (by simp [Timings.reals]))) <|
      .cons (reads_real (hreals t.findFeatures (by simp [Timings.reals]))) <|
      .cons (reads_real (hreals t.staticStrings (by simp [Timings.reals]))) <|
      .cons (reads_real (hreals t.languageStrings (by simp [Timings.reals]))) <|
      .cons (reads_real (hreals t.stackStrings (by simp [Timings.reals]))) <|
      .cons (reads_real (hreals t.decodedStrings (by simp [Timings.reals]))) <|
      .cons (reads_real (hreals t.tightStrings (by simp [Timings.reals]))) .nil)
  exact hfields

theorem reads_metadata {m : Metadata} (hdate : m.timings.startDate.Writable)
    (hreals : ∀ x ∈ m.timings.reals, x.ReadsBack) : Reads Metadata.schema.decode m.toJson m := by
  have hfields := reads_record Metadata.schema (by decide)
    (.cons (reads_text m.filePath) <|
      .cons (reads_text m.version) <|
      .cons (reads_word64 m.imageBase) <|
      .cons (reads_word32 m.minLength) <|
      .cons (reads_timings hdate hreals) <|
      .cons (reads_text m.language) <|
      .cons (reads_text m.languageVersion) <|
      .cons (reads_text m.languageSelected) .nil)
  exact hfields

theorem reads_score {s : Score} (h : s.score.ReadsBack) :
    Reads Score.schema.decode s.toJson s := by
  have hfields := reads_record Score.schema (by decide)
    (.cons (reads_real h) <| .cons (reads_word64 s.references) .nil)
  exact hfields

theorem reads_scoreTable {table : ScoreTable}
    (h : ∀ entry ∈ table.entries, entry.2.score.ReadsBack) :
    Reads ScoreTable.decode table.toJson table := by
  have htable := reads_table (fun entry hentry => reads_score (h entry hentry)) ScoreTable.empty
    ScoreTable.insert
  rw [ScoreTable.foldl_insert_entries] at htable
  exact htable

theorem reads_functionCounts {f : FunctionCounts}
    (h : ∀ entry ∈ f.candidates.entries, entry.2.score.ReadsBack) :
    Reads FunctionCounts.schema.decode f.toJson f := by
  have hfields := reads_record FunctionCounts.schema (by decide)
    (.cons (reads_word64 f.discovered) <|
      .cons (reads_word64 f.library) <|
      .cons (reads_word64 f.analyzedForStack) <|
      .cons (reads_word64 f.analyzedForTight) <|
      .cons (reads_word64 f.analyzedForDecoded) <|
      .cons (reads_scoreTable h) .nil)
  exact hfields

theorem reads_analysis {a : Analysis}
    (h : ∀ entry ∈ a.functions.candidates.entries, entry.2.score.ReadsBack) :
    Reads Analysis.schema.decode a.toJson a := by
  have hfields := reads_record Analysis.schema (by decide)
    (.cons (reads_flag a.staticEnabled) <|
      .cons (reads_flag a.stackEnabled) <|
      .cons (reads_flag a.tightEnabled) <|
      .cons (reads_flag a.decodedEnabled) <|
      .cons (reads_flag a.languageEnabled) <|
      .cons (reads_functionCounts h) .nil)
  exact hfields

theorem reads_staticString (s : StaticString) :
    Reads StaticString.schema.decode s.toJson s := by
  have hfields := reads_record StaticString.schema (by decide)
    (.cons (reads_text s.string) <|
      .cons (reads_word64 s.offset) <|
      .cons (reads_encoding s.encoding) .nil)
  exact hfields

theorem reads_languageString (s : LanguageString) :
    Reads LanguageString.schema.decode s.toJson s := by
  have hfields := reads_record LanguageString.schema (by decide)
    (.cons (reads_text s.string) <| .cons (reads_word64 s.offset) .nil)
  exact hfields

theorem reads_frameString (s : FrameString) : Reads FrameString.schema.decode s.toJson s := by
  have hfields := reads_record FrameString.schema (by decide)
    (.cons (reads_word64 s.function) <|
      .cons (reads_text s.string) <|
      .cons (reads_word64 s.programCounter) <|
      .cons (reads_word64 s.stackPointer) <|
      .cons (reads_word64 s.initialStackPointer) <|
      .cons (reads_word64 s.offset) <|
      .cons (reads_word64 s.frameOffset) .nil)
  exact hfields

theorem reads_decodedString (s : DecodedString) :
    Reads DecodedString.schema.decode s.toJson s := by
  have hfields := reads_record DecodedString.schema (by decide)
    (.cons (reads_word64? s.address) <|
      .cons (reads_region s.region) <|
      .cons (reads_text s.string) <|
      .cons (reads_word64 s.decodedAt) <|
      .cons (reads_word64 s.routine) .nil)
  exact hfields

theorem reads_findings (f : Findings) : Reads Findings.schema.decode f.toJson f := by
  have hfields := reads_record Findings.schema (by decide)
    (.cons (reads_list f.stack fun s _ => reads_frameString s) <|
      .cons (reads_list f.tight fun s _ => reads_frameString s) <|
      .cons (reads_list f.decoded fun s _ => reads_decodedString s) <|
      .cons (reads_list f.static fun s _ => reads_staticString s) <|
      .cons (reads_list f.language fun s _ => reads_languageString s) <|
      .cons (reads_list f.languageMissed fun s _ => reads_languageString s) .nil)
  exact hfields

theorem reads_document {d : Document} (hdate : d.metadata.timings.startDate.Writable)
    (hreals : ∀ x ∈ d.reals, x.ReadsBack) : Reads Document.schema.decode d.toJson d := by
  have hruns : ∀ x ∈ d.metadata.timings.reals, x.ReadsBack := fun x hx =>
    hreals x (List.mem_append_left _ hx)
  have hscores : ∀ entry ∈ d.analysis.functions.candidates.entries,
      entry.2.score.ReadsBack := fun entry hentry =>
    hreals _ (List.mem_append_right _ (List.mem_map_of_mem hentry))
  have hfields := reads_record Document.schema (by decide)
    (.cons (reads_metadata hdate hruns) <|
      .cons (reads_analysis hscores) <|
      .cons (reads_findings d.findings) .nil)
  exact hfields

/-! ## Documents -/

theorem realsOfItems_map {α : Type} {encode : α → Value} (h : ∀ a, (encode a).reals = [])
    (xs : List α) : realsOfItems (xs.map encode) = [] := by
  induction xs with
  | nil => rfl
  | cons x xs ih => rw [List.map_cons, realsOfItems, h x, ih, List.nil_append]

theorem DecodedString.reals_toJson (s : DecodedString) : s.toJson.reals = [] := by
  simp only [toJson, Value.reals, realsOfMembers, Value.word64, List.append_nil]
  cases s.address <;> rfl

theorem Findings.reals_toJson (f : Findings) : f.toJson.reals = [] := by
  simp only [toJson, Value.reals, realsOfMembers,
    realsOfItems_map (fun s : FrameString => (rfl : s.toJson.reals = [])),
    realsOfItems_map (fun s : StaticString => (rfl : s.toJson.reals = [])),
    realsOfItems_map (fun s : LanguageString => (rfl : s.toJson.reals = [])),
    realsOfItems_map DecodedString.reals_toJson, List.append_nil]

theorem ScoreTable.reals_toJson (table : ScoreTable) :
    table.toJson.reals = table.entries.map fun entry => entry.2.score := by
  rw [toJson, Value.reals]
  induction table.entries with
  | nil => rfl
  | cons entry entries ih =>
    rw [List.map_cons, realsOfMembers, ih]
    rfl

/-- The real numbers that a document is written with are its own. -/
theorem Document.reals_toJson (d : Document) : d.toJson.reals = d.reals := by
  have hruns : d.metadata.toJson.reals = d.metadata.timings.reals := rfl
  have hscores : d.analysis.toJson.reals =
      d.analysis.functions.candidates.entries.map fun entry => entry.2.score := by
    simp only [Analysis.toJson, FunctionCounts.toJson, Value.reals, realsOfMembers, Value.word64,
      ScoreTable.reals_toJson, List.append_nil, List.nil_append]
  simp only [Document.toJson, Value.reals, realsOfMembers, hruns, hscores, Findings.reals_toJson,
    List.append_nil, Document.reals]

/-- A document is read back from its text, with blanks at its end. -/
theorem Document.ofText_text {d : Document} (hdate : d.metadata.timings.startDate.Writable)
    (hreals : ∀ x ∈ d.reals, x.ReadsBack) {blanks : String}
    (hblanks : ∀ c ∈ blanks.toList, isSpace c) : Document.ofText (d.text ++ blanks) = .ok d := by
  have hlegible : ∀ x ∈ d.toJson.reals, x.Legible := by
    rw [Document.reals_toJson]
    exact fun x hx => (hreals x hx).legible
  obtain ⟨node, hnode, houtline⟩ := outline_text d.toJson hlegible hblanks
  have hread := reads_document hdate hreals node hnode
  rw [Document.ofText, String.toList_append, Document.text, houtline]
  simp only [hread, bind, Except.bind, Bool.false_eq_true, if_false]

/-- The text of a document, ended by a line feed, is read back as the very document, if its
date has a text and its real numbers are read back one by one; and the date of a document that
was itself read always has one. -/
theorem Document.ofText_text_newline :
    (∀ d : Document, d.metadata.timings.startDate.Writable → (∀ x ∈ d.reals, x.ReadsBack) →
      Document.ofText (d.text ++ "\n") = .ok d) ∧
    ∀ (text : String) (d : Document), Document.ofText text = .ok d →
      d.metadata.timings.startDate.Writable :=
  ⟨fun _ hdate hreals => Document.ofText_text hdate hreals (by simp [isSpace]),
    fun _ _ h => Document.writable_of_ofText h⟩

/-- One half. -/
def Binary64.half : Binary64 := ⟨0x3fe0000000000000⟩

theorem Binary64.readsBack_half : half.ReadsBack where
  finite := by decide
  reads := ⟨⟨false, ['0'], some ['5'], none⟩, by decide +kernel, by decide +kernel⟩

theorem Binary64.readsBack_zero : zero.ReadsBack where
  finite := by decide
  reads := ⟨⟨false, ['0'], some ['0'], none⟩, by decide +kernel, by decide +kernel⟩

/-- A document with a quote, a control character and an emoji in its strings, the largest
address, a score, and a date with a fraction and an offset. -/
def Document.sample : Document where
  metadata := {
    filePath := "a \"b\"\n\x01 😀"
    timings := {
      startDate := ⟨⟨2024, 2, 29, by decide, by decide⟩,
        ⟨23, 59, 8, 120000000, by decide, by decide, by decide, by decide⟩, -5400⟩
      total := .half } }
  analysis := { functions := { candidates := ScoreTable.empty.insert 7 ⟨.half, 2⟩ } }
  findings := {
    decoded := [⟨some 0xffffffffffffffff, .heap, "\\", 5, 7⟩, ⟨none, .global, "", 0, 1⟩] }

theorem Document.ofText_text_newline_sample :
    (Document.sample.metadata.timings.startDate.Writable ∧
      ∀ x ∈ Document.sample.reals, x.ReadsBack) ∧
    Document.ofText (Document.sample.text ++ "\n") = .ok Document.sample := by
  have hdate : Document.sample.metadata.timings.startDate.Writable :=
    ⟨by decide, by decide, by decide⟩
  have hreals : ∀ x ∈ Document.sample.reals, x.ReadsBack := by
    have hvalues : ∀ x ∈ Document.sample.reals, x = .half ∨ x = .zero := by decide
    intro x hx
    rcases hvalues x hx with rfl | rfl
    · exact Binary64.readsBack_half
    · exact Binary64.readsBack_zero
  exact ⟨⟨hdate, hreals⟩, Document.ofText_text_newline.1 Document.sample hdate hreals⟩

end StringReport
