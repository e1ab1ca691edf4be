import StringReport.Number.Natural

/-!
# Days and times of day

A date of the proleptic Gregorian calendar is a year, a month and a day that the month
has. A time of day is counted down to nanoseconds. Both hold their ranges as fields, so
that a value that exists is a valid one.
-/
namespace StringReport

/-- Whether February of a year has 29 days. -/
def isLeapYear (year : Int) : Bool := year % 4 = 0 ∧ (year % 100 ≠ 0 ∨ year % 400 = 0)

/-- The days of a month. -/
def daysIn (year : Int) (month : Nat) : Nat :=
  if month = 2 then (if isLeapYear year then 29 else 28)
  else if month = 4 ∨ month = 6 ∨ month = 9 ∨ month = 11 then 30
  else 31

theorem daysIn_pos (year : Int) (month : Nat) : 1 ≤ daysIn year month := by
  unfold daysIn
  split
  · split <;> decide
  · split <;> decide

structure Date where
  year : Int
  month : Nat
  day : Nat
  month_range : 1 ≤ month ∧ month ≤ 12
  day_range : 1 ≤ day ∧ day ≤ daysIn year month
  deriving DecidableEq, Repr

namespace Date

/-- The month after a month, with its year. -/
def monthAfter (year : Int) (month : Nat) : Int × Nat :=
  if month < 12 then (year, month + 1) else (year + 1, 1)

theorem monthAfter_range (year : Int) {month : Nat} (h : 1 ≤ month ∧ month ≤ 12) :
    1 ≤ (monthAfter year month).2 ∧ (monthAfter year month).2 ≤ 12 := by
  unfold monthAfter
  split
  · simp only; omega
  · simp

/-- The day that lies some days after the first of a month, at most `months` months
later. -/
def advance : (months : Nat) → (year : Int) → (month : Nat) → 1 ≤ month ∧ month ≤ 12 →
    (days : Nat) → Date
  | 0, year, month, h, _ => ⟨year, month, 1, h, Nat.le_refl 1, daysIn_pos year month⟩
  | months + 1, year, month, h, days =>
    if inside : days < daysIn year month then
      ⟨year, month, days + 1, h, Nat.succ_le_succ (Nat.zero_le days), inside⟩
    else
      advance months (monthAfter year month).1 (monthAfter year month).2
        (monthAfter_range year h) (days - daysIn year month)

/-- The day that lies some days after, or before, 1970-01-01. Years are counted from
March, so that the leap day ends a year, and in cycles of 400 years. -/
def ofEpochDays (days : Int) : Date :=
  let sinceMarch := days + 719468
  let cycle := Int.fdiv sinceMarch 146097
  let dayOfCycle := (Int.fmod sinceMarch 146097).toNat
  let yearOfCycle :=
    (dayOfCycle - dayOfCycle / 1460 + dayOfCycle / 36524 - dayOfCycle / 146096) / 365
  let dayOfYear := dayOfCycle - (365 * yearOfCycle + yearOfCycle / 4 - yearOfCycle / 100)
  advance 12 (cycle * 400 + yearOfCycle) 3 (by decide) dayOfYear

/-- 1970-01-01. -/
def epoch : Date := ⟨1970, 1, 1, by decide, by decide⟩

/-- Whether the day that lies `shift` days after a date, at most one day from it, ends its
month. -/
def endsMonth (date : Date) (shift : Int) : Bool :=
  (date.day : Int) + shift = 0 ∨ (date.day : Int) + shift = daysIn date.year date.month

example : ofEpochDays 0 = epoch := by decide +kernel
example : (ofEpochDays 19782).month = 2 ∧ (ofEpochDays 19782).day = 29 := by decide +kernel
example : (ofEpochDays (-719529)).year = -1 := by decide +kernel

end Date

structure TimeOfDay where
  hour : Nat
  minute : Nat
  second : Nat
  nanosecond : Nat
  hour_range : hour < 24
  minute_range : minute < 60
  second_range : second < 60
  nanosecond_range : nanosecond < 10 ^ 9
  deriving DecidableEq, Repr

namespace TimeOfDay

def midnight : TimeOfDay := ⟨0, 0, 0, 0, by decide, by decide, by decide, by decide⟩

/-- The time that lies whole seconds after midnight, days left out. -/
def ofSeconds (seconds : Nat) : TimeOfDay :=
  ⟨seconds / 3600 % 24, seconds / 60 % 60, seconds % 60, 0,
    Nat.mod_lt _ (by decide), Nat.mod_lt _ (by decide), Nat.mod_lt _ (by decide), by decide⟩

/-- The whole seconds since midnight. -/
def toSeconds (time : TimeOfDay) : Nat := 3600 * time.hour + 60 * time.minute + time.second

end TimeOfDay
end StringReport
