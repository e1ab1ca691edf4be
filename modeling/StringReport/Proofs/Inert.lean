import StringReport.Proofs.NumberDigits
import StringReport.Report.Routines

/-!
# Texts that a terminal only shows

A text is inert if a terminal obeys none of its characters. What the report writes of its own,
its labels, numbers, addresses and dates, is inert, and so is whatever comes out of the
sanitizer for terminals. A text for a cell of a grid may have line feeds besides, at which the
cell is split into lines.
-/
namespace StringReport

/-- Whether a terminal obeys a character instead of showing it. -/
def Character.isObeyed (c : Char) : Bool := isControl c || isBidiControl c

@[simp] theorem Character.isObeyed_of_printable {c : Char} (hlow : 0x20 ≤ c.toNat)
    (hhigh : c.toNat < 0x7f) : isObeyed c = false := by
  have hcontrol : isControl c = false := by
    simp only [isControl, Bool.or_eq_false_iff, Bool.and_eq_false_iff, decide_eq_false_iff_not]
    omega
  have hbidi : isBidiControl c = false := by
    simp only [isBidiControl, Bool.or_eq_false_iff, Bool.and_eq_false_iff,
      decide_eq_false_iff_not, beq_eq_false_iff_ne]
    omega
  rw [isObeyed, hcontrol, hbidi, Bool.or_self]

/-- A text of which a terminal shows every character. -/
def Inert (text : List Char) : Prop := ∀ c ∈ text, Character.isObeyed c = false

/-- A text of which every line is inert. -/
def InertLines (text : List Char) : Prop := ∀ c ∈ text, c ≠ '\n' → Character.isObeyed c = false

instance (text : List Char) : Decidable (Inert text) :=
  decidable_of_iff (text.all fun c => !Character.isObeyed c) (by simp [Inert])

instance (text : List Char) : Decidable (InertLines text) :=
  decidable_of_iff (text.all fun c => c == '\n' || !Character.isObeyed c) (by
    simp [InertLines, Decidable.or_iff_not_imp_left])

@[simp] theorem inert_nil : Inert [] := by simp [Inert]

@[simp] theorem inert_cons {c : Char} {text : List Char} :
    Inert (c :: text) ↔ Character.isObeyed c = false ∧ Inert text := by simp [Inert]

@[simp] theorem inert_append {a b : List Char} : Inert (a ++ b) ↔ Inert a ∧ Inert b := by
  simp only [Inert, List.mem_append]
  exact ⟨fun h => ⟨fun c hc => h c (Or.inl hc), fun c hc => h c (Or.inr hc)⟩,
    fun h c hc => hc.elim (h.1 c) (h.2 c)⟩

theorem inert_replicate {c : Char} (h : Character.isObeyed c = false) (n : Nat) :
    Inert (List.replicate n c) := by
  intro d hd
  rwa [List.eq_of_mem_replicate hd]

theorem inert_leftpad {c : Char} {text : List Char} (hc : Character.isObeyed c = false)
    (h : Inert text) (n : Nat) : Inert (text.leftpad n c) :=
  inert_append.2 ⟨inert_replicate hc _, h⟩

theorem Inert.lines {text : List Char} (h : Inert text) : InertLines text := fun c hc _ => h c hc

@[simp] theorem inertLines_append {a b : List Char} :
    InertLines (a ++ b) ↔ InertLines a ∧ InertLines b := by
  simp only [InertLines, List.mem_append]
  exact ⟨fun h => ⟨fun c hc => h c (Or.inl hc), fun c hc => h c (Or.inr hc)⟩,
    fun h c hc => hc.elim (h.1 c) (h.2 c)⟩

/-- An inert text has no line feed. -/
theorem Inert.newline_notMem {text : List Char} (h : Inert text) : '\n' ∉ text := by
  intro hmem
  exact absurd (h _ hmem) (by decide)

/-- An inert text has no escape character. -/
theorem Inert.escape_notMem {text : List Char} (h : Inert text) : Character.escape ∉ text := by
  intro hmem
  exact absurd (h _ hmem) (by decide)

theorem InertLines.inert {text : List Char} (h : InertLines text) (hn : '\n' ∉ text) :
    Inert text := by
  intro c hc
  refine h c hc ?_
  rintro rfl
  exact hn hc

/-! ## Numbers -/

theorem isObeyed_digitChar (d : Nat) : Character.isObeyed (Nat.digitChar d) = false := by
  by_cases h : d < 16
  · have hall : ∀ e < 16, Character.isObeyed (Nat.digitChar e) = false := by decide
    exact hall d h
  · rw [Nat.digitChar_eq_star.2 (Nat.le_of_not_lt h)]
    decide

theorem isObeyed_toUpper_digitChar (d : Nat) :
    Character.isObeyed (Nat.digitChar d).toUpper = false := by
  by_cases h : d < 16
  · have hall : ∀ e < 16, Character.isObeyed (Nat.digitChar e).toUpper = false := by decide
    exact hall d h
  · rw [Nat.digitChar_eq_star.2 (Nat.le_of_not_lt h)]
    decide

theorem inert_toDigits {base : Nat} (hbase : 1 < base) (n : Nat) :
    Inert (Nat.toDigits base n) := by
  intro c hc
  obtain ⟨d, -, rfl⟩ := exists_digit_of_mem_toDigits hbase n hc
  exact isObeyed_digitChar d

@[simp] theorem inert_toString (n : Nat) : Inert (toString n).toList := by
  simp [inert_toDigits]

@[simp] theorem inert_hexDigits (n : Nat) : Inert (Hex.digits n) := inert_toDigits (by decide) n

@[simp] theorem inert_hexPadded (width n : Nat) : Inert (Hex.padded width n) :=
  inert_leftpad (by decide) (inert_hexDigits n) width

@[simp] theorem inert_address (value : UInt64) : Inert (Hex.address value).toList := by
  simp only [Hex.address, String.toList_append, String.toList_ofList, inert_append]
  exact ⟨by decide, inert_hexDigits _⟩

@[simp] theorem inert_offset (value : UInt64) (width : Nat) :
    Inert (Hex.offset value width).toList := by
  simp only [Hex.offset, String.toList_append, String.toList_ofList, inert_append]
  exact ⟨by decide, inert_hexPadded _ _⟩

@[simp] theorem inert_upper (value : UInt64) : Inert (Hex.upper value).toList := by
  simp only [Hex.upper, String.toList_append, String.toList_ofList, inert_append]
  refine ⟨by decide, fun c hc => ?_⟩
  obtain ⟨d, hd, rfl⟩ := List.mem_map.1 hc
  obtain ⟨e, -, rfl⟩ := exists_digit_of_mem_toDigits (by decide) _ hd
  exact isObeyed_toUpper_digitChar e

@[simp] theorem inert_aligned (width n : Nat) : Inert (Document.aligned width n).toList := by
  rw [Document.aligned, String.toList_ofList]
  exact inert_leftpad (by decide) (inert_toString n) width

@[simp] theorem inert_timePadded (width n : Nat) : Inert (Timestamp.padded width n) :=
  inert_leftpad (by decide) (inert_toDigits (by decide) n) width

@[simp] theorem inert_clock (seconds : Nat) : Inert (Metadata.clock seconds).toList := by
  simp [Metadata.clock]

theorem inert_yearText (year : Int) : Inert (Timestamp.yearText year) := by
  unfold Timestamp.yearText
  split
  · simp
  · exact inert_timePadded _ _

@[simp] theorem inert_display (t : Timestamp) : Inert t.display.toList := by
  simp [Timestamp.display, Timestamp.dateText, Timestamp.clockText, inert_yearText]

/-- The text of a number has digits, and a few other characters. -/
theorem mem_fixed {places : Nat} {x : Binary64} {c : Char} (h : c ∈ (x.fixed places).toList) :
    c ∈ ['-', '.', 'N', 'a', 'i', 'n', 'f'] ∨ ∃ d, c = Nat.digitChar d := by
  have hdigits {n : Nat} (hc : c ∈ Decimal.digitsOf n) : ∃ d, c = Nat.digitChar d := by
    obtain ⟨d, -, hd⟩ := exists_digit_of_mem_toDigits (by decide) n hc
    exact ⟨d, hd⟩
  have hmagnitude (hc : c ∈ if x.isNaN then ['N', 'a', 'N']
      else if x.isInfinite then ['i', 'n', 'f']
      else
        let scaled := Rounding.halfEven (x.numerator * 10 ^ places) x.denominator
        Decimal.digitsOf (scaled / 10 ^ places) ++
          '.' :: (Decimal.digitsOf (scaled % 10 ^ places)).leftpad places '0') :
      c ∈ ['-', '.', 'N', 'a', 'i', 'n', 'f'] ∨ ∃ d, c = Nat.digitChar d := by
    have hNaN : ∀ d ∈ ['N', 'a', 'N'], d ∈ ['-', '.', 'N', 'a', 'i', 'n', 'f'] := by simp
    have hinf : ∀ d ∈ ['i', 'n', 'f'], d ∈ ['-', '.', 'N', 'a', 'i', 'n', 'f'] := by simp
    split at hc
    · exact .inl (hNaN c hc)
    · split at hc
      · exact .inl (hinf c hc)
      · rcases List.mem_append.1 hc with hc | hc
        · exact .inr (hdigits hc)
        · rcases List.mem_cons.1 hc with rfl | hc
          · exact .inl (by decide)
          · rcases List.mem_append.1 hc with hc | hc
            · exact .inr ⟨0, List.eq_of_mem_replicate hc⟩
            · exact .inr (hdigits hc)
  rw [Binary64.fixed, String.toList_ofList] at h
  split at h
  · rcases List.mem_cons.1 h with rfl | h
    · exact .inl (by decide)
    · exact hmagnitude h
  · exact hmagnitude h

@[simp] theorem inert_fixed (places : Nat) (x : Binary64) : Inert (x.fixed places).toList := by
  intro c hc
  rcases mem_fixed hc with hmark | ⟨d, rfl⟩
  · have hmarks : Inert ['-', '.', 'N', 'a', 'i', 'n', 'f'] := by decide
    exact hmarks c hmark
  · exact isObeyed_digitChar d

@[simp] theorem inert_spaces (n : Nat) : Inert (spaces n).toList := by
  rw [toList_spaces]
  exact inert_replicate (by decide) n

theorem inert_location (s : DecodedString) : Inert s.location.toList := by
  unfold DecodedString.location
  split
  · decide
  · decide
  · exact inert_address _

/-! ## Headings -/

theorem inert_headingTitle {text : String} (h : Inert text.toList) :
    Inert (headingTitle text).toList := by
  rw [headingTitle, String.toList_append, inert_append]
  exact ⟨by decide, h⟩

/-- The rules above and below a heading. -/
theorem inert_headingRule (width : Nat) :
    Inert (" " ++ String.ofList (List.replicate width '─')).toList := by
  simp only [String.toList_append, String.toList_ofList, inert_append]
  exact ⟨by decide, inert_replicate (by decide) width⟩

/-- The count that follows a label. -/
theorem inert_labelCount (count : Nat) : Inert (" (" ++ toString count ++ ")").toList := by
  simp only [String.toList_append, inert_append, inert_toString, and_true]
  exact ⟨by decide, by decide⟩

/-! ## Sanitized texts -/

theorem inert_numbered (c : Char) : Inert (Sanitizer.numbered c) := by
  unfold Sanitizer.numbered
  split
  · simp
  · simp

theorem inert_shown (asciiOnly : Bool) (c : Char) : Inert (Sanitizer.shown asciiOnly c) := by
  unfold Sanitizer.shown
  split
  · decide
  · split
    · decide
    · split
      · decide
      · split
        · exact inert_numbered c
        · next h =>
          simp only [Sanitizer.mustEscape, Bool.or_eq_true, not_or] at h
          simpa [Character.isObeyed] using h.1

/-- What the sanitizer for terminals writes is inert, whatever it is given. -/
@[simp] theorem inert_terminal (value : String) (asciiOnly : Bool) :
    Inert (Sanitizer.terminal value asciiOnly).toList := by
  intro c hc
  rw [Sanitizer.toList_terminal] at hc
  obtain ⟨d, -, hd⟩ := List.mem_flatMap.1 hc
  exact inert_shown asciiOnly d c hd

end StringReport
