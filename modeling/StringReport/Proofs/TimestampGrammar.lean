import StringReport.Calendar.Timestamp
import StringReport.Proofs.JsonGrammar

/-!
# The internet format of timestamps

How a timestamp is written, part by part, and that reading accepts just this. Between date and
time any single byte will do. A fraction counts to the ninth digit. The sixtieth second of a
minute is written only where it ends a month in universal time, and stands for the last
nanosecond before it.
-/
namespace StringReport.Timestamp

/-- How a number is written in a fixed count of digits. -/
structure InDigits (count n : Nat) (text : List Char) : Prop where
  length : text.length = count
  digits : ∀ c ∈ text, c.isDigit
  value : Nat.ofDigitChars 10 text 0 = n

/-- How nanoseconds are written. -/
inductive FractionText : Nat → List Char → Prop
  | none : FractionText 0 []
  | some {digits : List Char} : Numeral.IsDigits digits →
      FractionText (Nat.ofDigitChars 10 ((digits ++ List.replicate 9 '0').take 9) 0)
        ('.' :: digits)

/-- How a distance from universal time is written. -/
inductive DistanceText : Nat → List Char → Prop
  | mk {hours minutes : Nat} {hourText minuteText : List Char} :
    InDigits 2 hours hourText → hours ≤ 23 → InDigits 2 minutes minuteText → minutes ≤ 59 →
      DistanceText (3600 * hours + 60 * minutes) (hourText ++ ':' :: minuteText)

/-- How an offset is written. -/
inductive OffsetText : Int → List Char → Prop
  | universal {c : Char} : c = 'Z' ∨ c = 'z' → OffsetText 0 [c]
  | ahead {seconds : Nat} {text : List Char} : DistanceText seconds text →
      OffsetText seconds ('+' :: text)
  | behind {seconds : Nat} {text : List Char} : DistanceText seconds text →
      OffsetText (-seconds) ('-' :: text)

/-- The second and the nanosecond that are written for a timestamp: its own, or those of the
leap second after it. -/
def Ticks (t : Timestamp) (second nanosecond : Nat) : Prop :=
  t.time.second = second ∧ t.time.nanosecond = nanosecond ∨
    second = 60 ∧ t.time.second = 59 ∧ t.time.nanosecond = 999999999 ∧ t.endsMonth

/-- How a timestamp is written. -/
inductive Text : Timestamp → List Char → Prop
  | mk {t : Timestamp} {year second nanosecond : Nat} {separator : Char}
    {yearText monthText dayText hourText minuteText secondText fraction offset : List Char} :
    InDigits 4 year yearText → t.date.year = year →
      InDigits 2 t.date.month monthText → InDigits 2 t.date.day dayText →
      separator.toNat < 0x80 →
      InDigits 2 t.time.hour hourText → InDigits 2 t.time.minute minuteText →
      InDigits 2 second secondText → FractionText nanosecond fraction → t.Ticks second nanosecond →
      OffsetText t.offset offset →
      Text t (yearText ++ '-' :: (monthText ++ '-' :: (dayText ++ separator :: (hourText ++ ':' ::
        (minuteText ++ ':' :: (secondText ++ (fraction ++ offset)))))))

/-! ## Reading part by part -/

theorem readDigits_eq_ok {count n : Nat} {component : Component} {text rest : List Char} :
    readDigits count component text = .ok (n, rest) ↔
      ∃ digits, InDigits count n digits ∧ text = digits ++ rest := by
  constructor
  · intro h
    simp only [readDigits] at h
    split at h
    · next hdigits =>
      obtain ⟨hvalue, hrest⟩ := Prod.mk.inj (Except.ok.inj h)
      exact ⟨text.take count, ⟨hdigits.1, List.all_eq_true.1 hdigits.2, hvalue⟩,
        hrest ▸ (List.take_append_drop count text).symm⟩
    · cases h
  · rintro ⟨digits, ⟨hlength, hdigits, hvalue⟩, rfl⟩
    have htake : (digits ++ rest).take count = digits := List.take_left' hlength
    have hdrop : (digits ++ rest).drop count = rest := List.drop_left' hlength
    simp only [readDigits, htake, hdrop]
    rw [if_pos ⟨hlength, List.all_eq_true.2 hdigits⟩, hvalue]

theorem InDigits.read {count n : Nat} {digits : List Char} (h : InDigits count n digits)
    (component : Component) (rest : List Char) :
    readDigits count component (digits ++ rest) = .ok (n, rest) :=
  readDigits_eq_ok.2 ⟨digits, h, rfl⟩

theorem readMark_eq_ok {mark : Char} {text rest : List Char} :
    readMark mark text = .ok rest ↔ text = mark :: rest := by
  cases text with
  | nil => simp [readMark]
  | cons c text =>
    rw [readMark]
    split
    · next hc => simp [hc]
    · next hc => simp [hc]

theorem readSeparator_eq_ok {text rest : List Char} :
    readSeparator text = .ok rest ↔ ∃ c : Char, c.toNat < 0x80 ∧ text = c :: rest := by
  cases text with
  | nil => simp [readSeparator]
  | cons c text =>
    rw [readSeparator]
    constructor
    · intro h
      by_cases hc : c.toNat < 0x80
      · rw [if_pos hc] at h
        exact ⟨c, hc, congrArg (c :: ·) (Except.ok.inj h)⟩
      · rw [if_neg hc] at h
        cases h
    · rintro ⟨first, hfirst, heq⟩
      obtain ⟨rfl, rfl⟩ := List.cons.inj heq
      exact if_pos hfirst

theorem exists_of_readFraction {n : Nat} {text rest : List Char}
    (h : readFraction text = .ok (n, rest)) :
    ∃ fraction, FractionText n fraction ∧ text = fraction ++ rest := by
  unfold readFraction at h
  split at h
  · next text =>
    split at h
    · cases h
    · next hne =>
      obtain ⟨rfl, rfl⟩ := Prod.mk.inj (Except.ok.inj h)
      refine ⟨_, .some ⟨hne, fun c hc => List.mem_takeWhile_imp hc⟩, ?_⟩
      rw [List.cons_append, List.takeWhile_append_dropWhile]
  · obtain ⟨rfl, rfl⟩ := Prod.mk.inj (Except.ok.inj h)
    exact ⟨[], .none, rfl⟩

/-- A fraction is read to its end, if no more digits follow. -/
theorem FractionText.read {n : Nat} {fraction rest : List Char} (h : FractionText n fraction)
    (hrest : Numeral.Ends rest) : readFraction (fraction ++ rest) = .ok (n, rest) := by
  cases h with
  | none =>
    cases rest with
    | nil => rfl
    | cons c rest =>
      rw [List.nil_append, readFraction]
      intro tail heq
      exact (hrest c rfl).2.1 (List.cons.inj heq).1
  | @some digits hdigits =>
    have htake : (digits ++ rest).takeWhile Char.isDigit = digits := by
      rw [Numeral.takeWhile_append_ends _ hrest, List.takeWhile_eq_self_iff.2 hdigits.2]
    have hdrop : (digits ++ rest).dropWhile Char.isDigit = rest := by
      rw [Numeral.dropWhile_append_ends _ hrest, List.dropWhile_eq_nil_iff.2 hdigits.2,
        List.nil_append]
    rw [List.cons_append, readFraction, htake]
    split
    · exact absurd rfl hdigits.1
    · rw [hdrop]

/-- A check lets reading go on if it has found nothing. -/
theorem check_eq_ok {α : Type} {p : Prop} [Decidable p] {fault : Fault}
    {next : Unit → Except Fault α} {a : α} :
    (if p then (do let r ← Except.error fault; next r) else next ()) = .ok a ↔
      ¬ p ∧ next () = .ok a := by
  by_cases hp : p
  · rw [if_pos hp]
    exact ⟨nofun, fun h => absurd hp h.1⟩
  · rw [if_neg hp]
    exact ⟨fun h => ⟨hp, h⟩, fun h => h.2⟩

theorem readDistance_eq_ok {seconds : Nat} {text rest : List Char} :
    readDistance text = .ok (seconds, rest) ↔
      ∃ distance, DistanceText seconds distance ∧ text = distance ++ rest := by
  constructor
  · intro h
    obtain ⟨⟨hours, text⟩, hhours, h⟩ := exists_of_bind_eq_ok h
    obtain ⟨hhoursLe, h⟩ := check_eq_ok.1 h
    obtain ⟨text', hmark, h⟩ := exists_of_bind_eq_ok h
    obtain ⟨⟨minutes, text''⟩, hminutes, h⟩ := exists_of_bind_eq_ok h
    obtain ⟨hminutesLe, h⟩ := check_eq_ok.1 h
    obtain ⟨rfl, rfl⟩ := Prod.mk.inj (Except.ok.inj h)
    obtain ⟨hourText, hhourText, rfl⟩ := readDigits_eq_ok.1 hhours
    obtain rfl := readMark_eq_ok.1 hmark
    obtain ⟨minuteText, hminuteText, rfl⟩ := readDigits_eq_ok.1 hminutes
    exact ⟨_, .mk hhourText (Nat.not_lt.1 hhoursLe) hminuteText (Nat.not_lt.1 hminutesLe),
      by simp⟩
  · rintro ⟨_, ⟨hhourText, hhours, hminuteText, hminutes⟩, rfl⟩
    simp only [readDistance, List.append_assoc, List.cons_append, hhourText.read, bind,
      Except.bind, readMark, if_true, hminuteText.read, if_neg (Nat.not_lt.2 hhours),
      if_neg (Nat.not_lt.2 hminutes)]
    rfl

theorem readOffset_eq_ok {offset : Int} {text rest : List Char} :
    readOffset text = .ok (offset, rest) ↔
      ∃ written, OffsetText offset written ∧ text = written ++ rest := by
  constructor
  · intro h
    cases text with
    | nil => cases h
    | cons c text =>
      simp only [readOffset] at h
      split at h
      · next hc =>
        obtain ⟨rfl, rfl⟩ := Prod.mk.inj (Except.ok.inj h)
        exact ⟨[c], .universal hc, rfl⟩
      split at h
      · next hc =>
        obtain ⟨⟨seconds, after⟩, hseconds, heq⟩ := map_eq_ok.1 h
        obtain ⟨rfl, rfl⟩ := Prod.mk.inj heq
        obtain ⟨distance, hdistance, rfl⟩ := readDistance_eq_ok.1 hseconds
        exact ⟨'+' :: distance, .ahead hdistance, by rw [hc, List.cons_append]⟩
      split at h
      · next hc =>
        obtain ⟨⟨seconds, after⟩, hseconds, heq⟩ := map_eq_ok.1 h
        obtain ⟨rfl, rfl⟩ := Prod.mk.inj heq
        obtain ⟨distance, hdistance, rfl⟩ := readDistance_eq_ok.1 hseconds
        exact ⟨'-' :: distance, .behind hdistance, by rw [hc, List.cons_append]⟩
      · cases h
  · rintro ⟨_, hwritten, rfl⟩
    cases hwritten with
    | universal hc => simp only [List.singleton_append, readOffset, if_pos hc]
    | ahead hdistance =>
      have hread := readDistance_eq_ok.2 ⟨_, hdistance, @rfl _ (_ ++ rest)⟩
      rw [List.cons_append, readOffset, if_neg (by decide), if_pos rfl, hread]
      rfl
    | behind hdistance =>
      have hread := readDistance_eq_ok.2 ⟨_, hdistance, @rfl _ (_ ++ rest)⟩
      rw [List.cons_append, readOffset, if_neg (by decide), if_neg (by decide), if_pos rfl, hread]
      rfl

/-- What an offset starts with ends a fraction. -/
theorem OffsetText.ends {offset : Int} {text : List Char} (h : OffsetText offset text) :
    Numeral.Ends text := by
  cases h with
  | universal hc => rcases hc with rfl | rfl <;> exact Numeral.ends_cons (by decide)
  | ahead _ => exact Numeral.ends_cons (by decide)
  | behind _ => exact Numeral.ends_cons (by decide)

theorem makeDate_eq_ok {year : Int} {month day : Nat} {date : Date} :
    makeDate year month day = .ok date ↔
      date.year = year ∧ date.month = month ∧ date.day = day := by
  constructor
  · intro h
    unfold makeDate at h
    split at h
    · split at h
      · rw [← Except.ok.inj h]
        exact ⟨rfl, rfl, rfl⟩
      · cases h
    · cases h
  · rintro ⟨rfl, rfl, rfl⟩
    rw [makeDate, dif_pos date.month_range, dif_pos date.day_range]

theorem makeTime_eq_ok {hour minute second nanosecond : Nat} {time : TimeOfDay} :
    makeTime hour minute second nanosecond = .ok time ↔
      time.hour = hour ∧ time.minute = minute ∧ time.second = second ∧
        time.nanosecond = nanosecond := by
  constructor
  · intro h
    unfold makeTime at h
    split at h
    · split at h
      · split at h
        · split at h
          · rw [← Except.ok.inj h]
            exact ⟨rfl, rfl, rfl, rfl⟩
          · cases h
        · cases h
      · cases h
    · cases h
  · rintro ⟨rfl, rfl, rfl, rfl⟩
    rw [makeTime, dif_pos time.hour_range, dif_pos time.minute_range, dif_pos time.second_range,
      dif_pos time.nanosecond_range]

/-- The time of day that is made of the written second and nanosecond: they are its own, but for
a leap second, which has to end a month. -/
theorem makeTime_ticks_eq_ok {hour minute second nanosecond : Nat} {t : Timestamp} :
    (makeTime hour minute (if second = 60 then 59 else second)
        (if second = 60 then 999999999 else nanosecond) = .ok t.time ∧
      ¬ (second = 60 ∧ !t.endsMonth)) ↔
      t.time.hour = hour ∧ t.time.minute = minute ∧ t.Ticks second nanosecond := by
  rw [makeTime_eq_ok]
  by_cases hsixty : second = 60
  · simp only [hsixty, if_true, Ticks, true_and]
    have hsecond : t.time.second ≠ 60 := Nat.ne_of_lt t.time.second_range
    simp [hsecond, and_assoc]
  · simp only [hsixty, if_false, Ticks, false_and, not_false_eq_true, and_true, or_false]

/-- What is read is written: each step of reading has found a part of the text. -/
theorem text_of_read {text : List Char} {t : Timestamp} (h : read text = .ok t) : t.Text text := by
  obtain ⟨⟨year, text₁⟩, hyear, h⟩ := exists_of_bind_eq_ok h
  obtain ⟨text₂, hmark₁, h⟩ := exists_of_bind_eq_ok h
  obtain ⟨⟨month, text₃⟩, hmonth, h⟩ := exists_of_bind_eq_ok h
  obtain ⟨-, h⟩ := check_eq_ok.1 h
  obtain ⟨text₄, hmark₂, h⟩ := exists_of_bind_eq_ok h
  obtain ⟨⟨day, text₅⟩, hday, h⟩ := exists_of_bind_eq_ok h
  obtain ⟨text₆, hseparator, h⟩ := exists_of_bind_eq_ok h
  obtain ⟨⟨hour, text₇⟩, hhour, h⟩ := exists_of_bind_eq_ok h
  obtain ⟨text₈, hmark₃, h⟩ := exists_of_bind_eq_ok h
  obtain ⟨⟨minute, text₉⟩, hminute, h⟩ := exists_of_bind_eq_ok h
  obtain ⟨text₁₀, hmark₄, h⟩ := exists_of_bind_eq_ok h
  obtain ⟨⟨second, text₁₁⟩, hsecond, h⟩ := exists_of_bind_eq_ok h
  obtain ⟨⟨nanosecond, text₁₂⟩, hfraction, h⟩ := exists_of_bind_eq_ok h
  obtain ⟨⟨offset, text₁₃⟩, hoffset, h⟩ := exists_of_bind_eq_ok h
  obtain ⟨hnil, h⟩ := check_eq_ok.1 h
  obtain ⟨date, hdate, h⟩ := exists_of_bind_eq_ok h
  obtain ⟨time, htime, h⟩ := exists_of_bind_eq_ok h
  obtain ⟨hleap, h⟩ := check_eq_ok.1 h
  obtain rfl : (⟨date, time, offset⟩ : Timestamp) = t := Except.ok.inj h
  obtain ⟨yearText, hyearText, rfl⟩ := readDigits_eq_ok.1 hyear
  obtain rfl := readMark_eq_ok.1 hmark₁
  obtain ⟨monthText, hmonthText, rfl⟩ := readDigits_eq_ok.1 hmonth
  obtain rfl := readMark_eq_ok.1 hmark₂
  obtain ⟨dayText, hdayText, rfl⟩ := readDigits_eq_ok.1 hday
  obtain ⟨separator, hascii, rfl⟩ := readSeparator_eq_ok.1 hseparator
  obtain ⟨hourText, hhourText, rfl⟩ := readDigits_eq_ok.1 hhour
  obtain rfl := readMark_eq_ok.1 hmark₃
  obtain ⟨minuteText, hminuteText, rfl⟩ := readDigits_eq_ok.1 hminute
  obtain rfl := readMark_eq_ok.1 hmark₄
  obtain ⟨secondText, hsecondText, rfl⟩ := readDigits_eq_ok.1 hsecond
  obtain ⟨fraction, hfractionText, rfl⟩ := exists_of_readFraction hfraction
  obtain ⟨offsetText, hoffsetText, rfl⟩ := readOffset_eq_ok.1 hoffset
  obtain rfl := not_not.1 hnil
  obtain ⟨heq, rfl, rfl⟩ := makeDate_eq_ok.1 hdate
  obtain ⟨rfl, rfl, hticks⟩ := makeTime_ticks_eq_ok.1 ⟨htime, hleap⟩
  rw [List.append_nil]
  exact .mk hyearText heq hmonthText hdayText hascii hhourText hminuteText hsecondText
    hfractionText hticks hoffsetText

/-- What is written is read. -/
theorem Text.read {text : List Char} {t : Timestamp} (h : t.Text text) :
    Timestamp.read text = .ok t := by
  obtain ⟨hyear, heq, hmonth, hday, hseparator, hhour, hminute, hsecond, hfraction, hticks,
    hoffset⟩ := h
  have hread := readOffset_eq_ok.2 ⟨_, hoffset, (List.append_nil _).symm⟩
  have hmonthPos : t.date.month ≠ 0 := Nat.ne_of_gt t.date.month_range.1
  have hdate := makeDate_eq_ok.2 ⟨heq, rfl, rfl⟩
  obtain ⟨htime, hleap⟩ := makeTime_ticks_eq_ok.2 ⟨rfl, rfl, hticks⟩
  simp only [Timestamp.read, bind, Except.bind, pure, Except.pure, hyear.read, hmonth.read,
    hday.read, hhour.read, hminute.read, hsecond.read, hfraction.read hoffset.ends, hread,
    readMark, readSeparator, if_true, if_pos hseparator, if_neg hmonthPos, ne_eq, not_true,
    if_false, hdate, htime, if_neg hleap]

/-- A timestamp is read from just the texts that are written for it. -/
theorem read_eq_ok {text : List Char} {t : Timestamp} : read text = .ok t ↔ t.Text text :=
  ⟨text_of_read, Text.read⟩

end StringReport.Timestamp
