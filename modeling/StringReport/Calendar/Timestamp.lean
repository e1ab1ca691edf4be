import StringReport.Calendar.Date

/-!
# Timestamps in internet format

A timestamp is a local date and time with its distance from universal time. Reading keeps
what is written: the local time is not shifted by the offset. A leap second is accepted
where one can be, at the end of a month in universal time, and stands as the last
nanosecond before it.
-/
namespace StringReport

/-- A date and time as a clock shows it that is `offset` seconds ahead of universal
time. -/
structure Timestamp where
  date : Date
  time : TimeOfDay
  offset : Int
  deriving DecidableEq, Repr

namespace Timestamp

/-- 1970-01-01 at midnight in universal time. -/
def epoch : Timestamp := ⟨.epoch, .midnight, 0⟩

instance : Inhabited Timestamp := ⟨epoch⟩

/-- The instant some seconds after the epoch, as a clock with the given offset shows it. -/
def ofUnix (seconds offset : Int) : Timestamp :=
  let local_ := seconds + offset
  ⟨.ofEpochDays (Int.fdiv local_ 86400), .ofSeconds (Int.fmod local_ 86400).toNat, offset⟩

/-! ## Writing -/

/-- A number with leading zeros, up to the given count of digits. -/
def padded (width n : Nat) : List Char := (Nat.toDigits 10 n).leftpad width '0'

/-- A year of at least four digits, with a minus before year 0. -/
def yearText (year : Int) : List Char :=
  if year < 0 then '-' :: padded 4 year.natAbs else padded 4 year.natAbs

def dateText (date : Date) : List Char :=
  yearText date.year ++ '-' :: padded 2 date.month ++ '-' :: padded 2 date.day

def clockText (time : TimeOfDay) : List Char :=
  padded 2 time.hour ++ ':' :: padded 2 time.minute ++ ':' :: padded 2 time.second

/-- Date and time to the second, a space between them. -/
def display (t : Timestamp) : String :=
  String.ofList (dateText t.date ++ ' ' :: clockText t.time)

/-- The fraction of a second without trailing zeros, absent if it is zero. -/
def fractionText (nanosecond : Nat) : List Char :=
  if nanosecond = 0 then []
  else '.' :: ((padded 9 nanosecond).reverse.dropWhile (· = '0')).reverse

def offsetText (offset : Int) : List Char :=
  if offset = 0 then ['Z']
  else
    let minutes := offset.natAbs / 60
    (if offset < 0 then '-' else '+') :: padded 2 (minutes / 60) ++ ':' :: padded 2 (minutes % 60)

/-- The internet format. -/
def text (t : Timestamp) : String :=
  String.ofList (dateText t.date ++ 'T' :: clockText t.time ++
    fractionText t.time.nanosecond ++ offsetText t.offset)

/-! ## Reading -/

/-- The parts of a timestamp. -/
inductive Component where
  | year | month | day | separator | hour | minute | second | subsecond | offsetHour
  | offsetMinute
  deriving DecidableEq, Repr

def Component.label : Component → String
  | year => "year"
  | month => "month"
  | day => "day"
  | separator => "separator"
  | hour => "hour"
  | minute => "minute"
  | second => "second"
  | subsecond => "subsecond"
  | offsetHour => "offset hour"
  | offsetMinute => "offset minute"

/-- Why a text is no timestamp. -/
inductive Fault where
  | unreadable (component : Component)
  | outOfRange (component : Component)
  | missingMark
  | trailing
  deriving DecidableEq, Repr

def Fault.message : Fault → String
  | unreadable component => "the '" ++ component.label ++ "' component could not be parsed"
  | outOfRange component => component.label ++ " was not in range"
  | missingMark => "a character literal was not valid"
  | trailing => "unexpected trailing characters; the end of input was expected"

/-- Read a number of exactly the given count of digits. -/
def readDigits (count : Nat) (component : Component) (text : List Char) :
    Except Fault (Nat × List Char) :=
  let digits := text.take count
  if digits.length = count ∧ digits.all Char.isDigit then
    .ok (Nat.ofDigitChars 10 digits 0, text.drop count)
  else .error (.unreadable component)

/-- Read one fixed character. -/
def readMark (mark : Char) : List Char → Except Fault (List Char)
  | c :: rest => if c = mark then .ok rest else .error .missingMark
  | [] => .error .missingMark

/-- Read the single byte between date and time, whatever it is. A character of several
bytes leaves the hour unreadable. -/
def readSeparator : List Char → Except Fault (List Char)
  | [] => .error (.unreadable .separator)
  | c :: rest => if c.toNat < 0x80 then .ok rest else .error (.unreadable .hour)

/-- Read a fraction of a second, if there is one, in nanoseconds; digits beyond the ninth
are dropped. -/
def readFraction : List Char → Except Fault (Nat × List Char)
  | '.' :: rest =>
    match rest.takeWhile Char.isDigit with
    | [] => .error (.unreadable .subsecond)
    | digits =>
      let nine := (digits ++ List.replicate 9 '0').take 9
      .ok (Nat.ofDigitChars 10 nine 0, rest.dropWhile Char.isDigit)
  | rest => .ok (0, rest)

/-- Read the hours and minutes of an offset, in seconds. -/
def readDistance (text : List Char) : Except Fault (Nat × List Char) := do
  let (hours, text) ← readDigits 2 .offsetHour text
  if 23 < hours then .error (.unreadable .offsetHour)
  let text ← readMark ':' text
  let (minutes, text) ← readDigits 2 .offsetMinute text
  if 59 < minutes then .error (.outOfRange .offsetMinute)
  return (3600 * hours + 60 * minutes, text)

/-- Read the offset, in seconds. -/
def readOffset : List Char → Except Fault (Int × List Char)
  | [] => .error (.unreadable .offsetHour)
  | c :: rest =>
    if c = 'Z' ∨ c = 'z' then .ok (0, rest)
    else if c = '+' then (readDistance rest).map fun (seconds, rest) => ((seconds : Int), rest)
    else if c = '-' then (readDistance rest).map fun (seconds, rest) => (-(seconds : Int), rest)
    else .error (.unreadable .offsetHour)

/-- A date, if the month exists and has the day. -/
def makeDate (year : Int) (month day : Nat) : Except Fault Date :=
  if hm : 1 ≤ month ∧ month ≤ 12 then
    if hd : 1 ≤ day ∧ day ≤ daysIn year month then .ok ⟨year, month, day, hm, hd⟩
    else .error (.outOfRange .day)
  else .error (.outOfRange .month)

/-- A time of day, if each part is in range. -/
def makeTime (hour minute second nanosecond : Nat) : Except Fault TimeOfDay :=
  if hh : hour < 24 then
    if hm : minute < 60 then
      if hs : second < 60 then
        if hn : nanosecond < 10 ^ 9 then .ok ⟨hour, minute, second, nanosecond, hh, hm, hs, hn⟩
        else .error (.outOfRange .subsecond)
      else .error (.outOfRange .second)
    else .error (.outOfRange .minute)
  else .error (.outOfRange .hour)

/-- Whether a timestamp is in the last second of a month in universal time. -/
def endsMonth (t : Timestamp) : Bool :=
  let seconds := (t.time.toSeconds : Int) - t.offset
  Int.fmod seconds 86400 = 86399 ∧ t.date.endsMonth (Int.fdiv seconds 86400)

/-- Read a timestamp. All parts are read first; then ranges are checked. -/
def read (text : List Char) : Except Fault Timestamp := do
  let (year, text) ← readDigits 4 .year text
  let text ← readMark '-' text
  let (month, text) ← readDigits 2 .month text
  if month = 0 then .error (.unreadable .month)
  let text ← readMark '-' text
  let (day, text) ← readDigits 2 .day text
  let text ← readSeparator text
  let (hour, text) ← readDigits 2 .hour text
  let text ← readMark ':' text
  let (minute, text) ← readDigits 2 .minute text
  let text ← readMark ':' text
  let (second, text) ← readDigits 2 .second text
  let (nanosecond, text) ← readFraction text
  let (offset, text) ← readOffset text
  if text ≠ [] then .error .trailing
  let leap := second = 60
  let date ← makeDate year month day
  let time ← makeTime hour minute (if leap then 59 else second)
    (if leap then 999999999 else nanosecond)
  let t : Timestamp := ⟨date, time, offset⟩
  if leap ∧ !t.endsMonth then .error (.outOfRange .second)
  return t

example : (ofUnix (-1) 0).display = "1969-12-31 23:59:59" := by decide +kernel
example : (read "2024-06-30T23:59:60Z".toList).toOption.map text
    = some "2024-06-30T23:59:59.999999999Z" := by decide +kernel

end Timestamp
end StringReport
