import StringReport.Proofs.TimestampGrammar

/-!
# Timestamps read back from their text

Each part of a timestamp is written with as many digits as it is read with, so it is read back
as long as it fits them: a year of four digits, an offset of whole minutes below a day. The
ranges of the other parts are those of their types. A fraction of a second may have lost zeros
at its end, which reading puts back.
-/
namespace StringReport.Timestamp

/-- A timestamp of which the text has a place for every part. -/
structure Writable (t : Timestamp) : Prop where
  year : 0 ≤ t.date.year ∧ t.date.year ≤ 9999
  minutes : t.offset % 60 = 0
  day : t.offset.natAbs < 86400

/-! ## Digits -/

theorem length_padded {width n : Nat} (hwidth : 0 < width) (h : n < 10 ^ width) :
    (padded width n).length = width := by
  have hlength : (Nat.toDigits 10 n).length ≤ width :=
    (Nat.length_toDigits_le_iff (by decide) hwidth).2 h
  rw [padded, List.length_leftpad]
  omega

theorem isDigit_of_mem_padded {width n : Nat} {c : Char} (h : c ∈ padded width n) :
    c.isDigit := by
  rcases List.mem_append.1 h with h | h
  · rw [List.eq_of_mem_replicate h]
    decide
  · exact Nat.isDigit_of_mem_toDigits (by decide) (by decide) h

theorem ofDigitChars_padded (width n : Nat) : Nat.ofDigitChars 10 (padded width n) 0 = n := by
  rw [padded, List.leftpad, Nat.ofDigitChars_append, Nat.ofDigitChars_replicate_zero, Nat.mul_zero,
    Nat.ofDigitChars_toDigits (by decide) (by decide)]

theorem inDigits_padded {width n : Nat} (hwidth : 0 < width) (h : n < 10 ^ width) :
    InDigits width n (padded width n) :=
  ⟨length_padded hwidth h, fun _ hc => isDigit_of_mem_padded hc, ofDigitChars_padded width n⟩

theorem yearText_natCast (year : Nat) : yearText year = padded 4 year := by
  rw [yearText, if_neg (Int.not_lt.2 (Int.natCast_nonneg year)), Int.natAbs_natCast]

/-! ## Fractions and offsets -/

/-- Digits without the zeros at their end. -/
def trimmed (digits : List Char) : List Char := (digits.reverse.dropWhile (· = '0')).reverse

theorem trimmed_append_zeros (digits : List Char) :
    ∃ count, trimmed digits ++ List.replicate count '0' = digits := by
  have hzeros : digits.reverse.takeWhile (· = '0') =
      List.replicate (digits.reverse.takeWhile (· = '0')).length '0' := by
    rw [List.eq_replicate_iff]
    exact ⟨rfl, fun c hc => by simpa using List.mem_takeWhile_imp hc⟩
  refine ⟨(digits.reverse.takeWhile (· = '0')).length, ?_⟩
  rw [trimmed, ← List.reverse_replicate, ← hzeros, ← List.reverse_append,
    List.takeWhile_append_dropWhile, List.reverse_reverse]

/-- A fraction is written down to its last digit that is not zero. -/
theorem fractionText_text {n : Nat} (h : n < 10 ^ 9) : FractionText n (fractionText n) := by
  unfold fractionText
  split
  · next hzero =>
    rw [hzero]
    exact .none
  · next hpositive =>
    have hlength := length_padded (by decide : 0 < 9) h
    have hvalue := ofDigitChars_padded 9 n
    obtain ⟨count, hpadded⟩ := trimmed_append_zeros (padded 9 n)
    have hcount : (trimmed (padded 9 n)).length + count = 9 := by
      have hlengths := congrArg List.length hpadded
      rwa [List.length_append, List.length_replicate, hlength] at hlengths
    have hdigits : ∀ c ∈ trimmed (padded 9 n), c.isDigit := by
      intro c hc
      have hmem : c ∈ padded 9 n := by
        rw [← hpadded]
        exact List.mem_append_left _ hc
      exact isDigit_of_mem_padded hmem
    have hne : trimmed (padded 9 n) ≠ [] := by
      intro hnil
      rw [← hpadded, hnil, List.nil_append, Nat.ofDigitChars_replicate_zero] at hvalue
      omega
    have hnine : (trimmed (padded 9 n) ++ List.replicate 9 '0').take 9 = padded 9 n := by
      have hshort : (trimmed (padded 9 n)).take 9 = trimmed (padded 9 n) :=
        List.take_of_length_le (by omega)
      have hfill : min (9 - (trimmed (padded 9 n)).length) 9 = count := by omega
      rw [List.take_append, List.take_replicate, hshort, hfill, hpadded]
    have htext := FractionText.some ⟨hne, hdigits⟩
    rwa [hnine, hvalue] at htext

/-- An offset of whole minutes below a day is written in hours and minutes. -/
theorem offsetText_text {offset : Int} (hminutes : offset % 60 = 0)
    (hday : offset.natAbs < 86400) : OffsetText offset (offsetText offset) := by
  unfold offsetText
  split
  · next hzero =>
    rw [hzero]
    exact .universal (Or.inl rfl)
  · have hhours : offset.natAbs / 60 / 60 ≤ 23 := by omega
    have hrest : offset.natAbs / 60 % 60 ≤ 59 := by omega
    have hdistance := DistanceText.mk (inDigits_padded (by decide) (by omega)) hhours
      (inDigits_padded (by decide) (by omega)) hrest
    have hvalue : 3600 * (offset.natAbs / 60 / 60) + 60 * (offset.natAbs / 60 % 60) =
        offset.natAbs := by omega
    rw [hvalue] at hdistance
    split
    · next hnegative =>
      have hsign : -(offset.natAbs : Int) = offset := by omega
      have htext := OffsetText.behind hdistance
      rwa [hsign] at htext
    · next hpositive =>
      have hsign : (offset.natAbs : Int) = offset := by omega
      have htext := OffsetText.ahead hdistance
      rwa [hsign] at htext

/-! ## Timestamps -/

theorem daysIn_le (year : Int) (month : Nat) : daysIn year month ≤ 31 := by
  unfold daysIn
  split
  · split <;> decide
  · split <;> decide

/-- A writable timestamp is read back from its text. -/
theorem read_text {t : Timestamp} (h : t.Writable) : read t.text.toList = .ok t := by
  obtain ⟨⟨hnonneg, hyear⟩, hminutes, hday⟩ := h
  obtain ⟨year, hyeareq⟩ := Int.eq_ofNat_of_zero_le hnonneg
  have hmonth := t.date.month_range
  have hdays := t.date.day_range
  have hlast := daysIn_le t.date.year t.date.month
  have hhour := t.time.hour_range
  have hminute := t.time.minute_range
  have hsecond := t.time.second_range
  have hyearText : yearText t.date.year = padded 4 year := hyeareq ▸ yearText_natCast year
  have htext := Text.mk (inDigits_padded (by decide) (by omega)) hyeareq
    (inDigits_padded (by decide) (by omega)) (inDigits_padded (by decide) (by omega))
    (by decide : 'T'.toNat < 0x80) (inDigits_padded (by decide) (by omega))
    (inDigits_padded (by decide) (by omega)) (inDigits_padded (by decide) (by omega))
    (fractionText_text t.time.nanosecond_range) (Or.inl ⟨rfl, rfl⟩)
    (offsetText_text hminutes hday)
  rw [read_eq_ok, text, String.toList_ofList]
  simpa only [dateText, clockText, hyearText, List.append_assoc, List.cons_append] using htext

/-! ## What is read can be written -/

theorem ofDigitChars_lt {digits : List Char} (h : ∀ c ∈ digits, c.isDigit) :
    Nat.ofDigitChars 10 digits 0 < 10 ^ digits.length := by
  induction digits with
  | nil => decide
  | cons c digits ih =>
    have hrest := ih fun d hd => h d (List.mem_cons_of_mem _ hd)
    have hc := h c List.mem_cons_self
    have hvalue : c.toNat - '0'.toNat ≤ 9 := by
      simp only [Char.isDigit, Bool.and_eq_true, decide_eq_true_eq] at hc
      have hle : c.toNat ≤ '9'.toNat := hc.2
      have hnine : '9'.toNat = 57 := rfl
      have hzero : '0'.toNat = 48 := rfl
      omega
    rw [Nat.ofDigitChars_cons, Nat.ofDigitChars_eq_ofDigitChars_zero, List.length_cons,
      Nat.pow_succ]
    have hfirst : 10 ^ digits.length * (10 * 0 + (c.toNat - '0'.toNat)) ≤
        10 ^ digits.length * 9 := Nat.mul_le_mul_left _ (by omega)
    omega

theorem InDigits.lt {count n : Nat} {text : List Char} (h : InDigits count n text) :
    n < 10 ^ count := by
  have hlt := ofDigitChars_lt h.digits
  rwa [h.length, h.value] at hlt

theorem OffsetText.range {offset : Int} {text : List Char} (h : OffsetText offset text) :
    offset % 60 = 0 ∧ offset.natAbs < 86400 := by
  cases h with
  | universal _ => decide
  | ahead hdistance =>
    obtain ⟨-, hhours, -, hminutes⟩ := hdistance
    omega
  | behind hdistance =>
    obtain ⟨-, hhours, -, hminutes⟩ := hdistance
    omega

/-- Every timestamp that is read has a text with a place for every part. -/
theorem writable_of_read {text : List Char} {t : Timestamp} (h : read text = .ok t) :
    t.Writable := by
  obtain ⟨hyear, heq, -, -, -, -, -, -, -, -, hoffset⟩ := read_eq_ok.1 h
  have hlt := hyear.lt
  obtain ⟨hminutes, hday⟩ := hoffset.range
  exact ⟨by omega, hminutes, hday⟩

end StringReport.Timestamp
