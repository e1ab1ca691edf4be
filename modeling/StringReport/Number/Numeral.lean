import StringReport.Number.Binary64

/-!
# Decimal numerals

A numeral is scanned by its grammar first: an optional minus, digits without a
superfluous leading zero, an optional fraction, an optional exponent. Its value is
computed afterwards. A whole number that fits 64 bits stays whole; any other is made
from its leading digits, as many as fit 64 bits, and a power of ten, each step rounded.
-/
namespace StringReport

/-- A numeral by its parts, digits as written. -/
structure Numeral where
  negative : Bool
  whole : List Char
  fraction : Option (List Char)
  exponent : Option (Bool × List Char)
  deriving DecidableEq, Repr

namespace Numeral

/-- What scanning finds: a numeral and the text after it, a text that ends too early,
or a character where none can stand. -/
inductive Scan where
  | complete (numeral : Numeral) (rest : List Char)
  | cut
  | malformed
  deriving DecidableEq, Repr

/-- Scan the digits due at this place, at least one of them. -/
def scanDigits (next : List Char → List Char → Scan) (text : List Char) : Scan :=
  match text.takeWhile Char.isDigit with
  | [] => if text.isEmpty then .cut else .malformed
  | digits => next digits (text.dropWhile Char.isDigit)

/-- Scan an exponent, if one follows. -/
def scanExponent (numeral : Numeral) : List Char → Scan
  | [] => .complete numeral []
  | c :: rest =>
    if c = 'e' ∨ c = 'E' then
      match rest with
      | '-' :: rest =>
        scanDigits (fun digits => .complete { numeral with exponent := some (true, digits) }) rest
      | '+' :: rest =>
        scanDigits (fun digits => .complete { numeral with exponent := some (false, digits) }) rest
      | rest =>
        scanDigits (fun digits => .complete { numeral with exponent := some (false, digits) }) rest
    else .complete numeral (c :: rest)

/-- Scan a fraction, if one follows, and an exponent after it. -/
def scanFraction (numeral : Numeral) : List Char → Scan
  | '.' :: rest =>
    scanDigits (fun digits => scanExponent { numeral with fraction := some digits }) rest
  | rest => scanExponent numeral rest

/-- Scan a numeral from its digits on. -/
def scanWhole (negative : Bool) : List Char → Scan
  | [] => .cut
  | '0' :: rest =>
    match rest with
    | c :: _ =>
      if c.isDigit then .malformed else scanFraction ⟨negative, ['0'], none, none⟩ rest
    | [] => .complete ⟨negative, ['0'], none, none⟩ []
  | text =>
    match text.takeWhile Char.isDigit with
    | [] => .malformed
    | digits => scanFraction ⟨negative, digits, none, none⟩ (text.dropWhile Char.isDigit)

/-- Scan the numeral that a text opens with. -/
def scan : List Char → Scan
  | '-' :: rest => scanWhole true rest
  | text => scanWhole false text

/-! ## A numeral takes up text -/

theorem length_dropWhile_le {α : Type} (p : α → Bool) (xs : List α) :
    (xs.dropWhile p).length ≤ xs.length := (List.dropWhile_sublist p).length_le

theorem length_dropWhile_lt {xs : List Char} (h : xs.takeWhile Char.isDigit ≠ []) :
    (xs.dropWhile Char.isDigit).length < xs.length := by
  cases xs with
  | nil => simp at h
  | cons c cs =>
    by_cases hc : c.isDigit
    · have := length_dropWhile_le Char.isDigit cs
      simp only [List.dropWhile_cons, hc, if_true, List.length_cons]
      omega
    · simp [hc] at h

/-- What the digits are followed by is shorter, if that holds of the continuation. -/
theorem length_lt_of_scanDigits {next : List Char → List Char → Scan} {text rest : List Char}
    {n : Numeral} (hnext : ∀ digits text, next digits text = .complete n rest →
      rest.length ≤ text.length)
    (h : scanDigits next text = .complete n rest) : rest.length < text.length := by
  unfold scanDigits at h
  split at h
  · split at h <;> cases h
  · next digits hd =>
    have h1 := hnext _ _ h
    have h2 : (text.dropWhile Char.isDigit).length < text.length :=
      length_dropWhile_lt (by simpa using hd)
    omega

theorem length_le_of_scanExponent {numeral n : Numeral} {text rest : List Char}
    (h : scanExponent numeral text = .complete n rest) : rest.length ≤ text.length := by
  unfold scanExponent at h
  split at h
  · cases h; simp
  · split at h
    · split at h
      · have := length_lt_of_scanDigits (by intro _ _ h; cases h; simp) h
        simp only [List.length_cons]; omega
      · have := length_lt_of_scanDigits (by intro _ _ h; cases h; simp) h
        simp only [List.length_cons]; omega
      · have := length_lt_of_scanDigits (by intro _ _ h; cases h; simp) h
        simp only [List.length_cons]; omega
    · cases h; simp

theorem length_le_of_scanFraction {numeral n : Numeral} {text rest : List Char}
    (h : scanFraction numeral text = .complete n rest) : rest.length ≤ text.length := by
  unfold scanFraction at h
  split at h
  · have := length_lt_of_scanDigits (fun _ _ h => length_le_of_scanExponent h) h
    simp only [List.length_cons]; omega
  · exact length_le_of_scanExponent h

theorem length_lt_of_scanWhole {negative : Bool} {n : Numeral} {text rest : List Char}
    (h : scanWhole negative text = .complete n rest) : rest.length < text.length := by
  unfold scanWhole at h
  split at h
  · cases h
  · split at h
    · split at h
      · cases h
      · have := length_le_of_scanFraction h
        simp only [List.length_cons] at *; omega
    · cases h; simp
  · split at h
    · cases h
    · next digits hd =>
      have h1 := length_le_of_scanFraction h
      have h2 : (text.dropWhile Char.isDigit).length < text.length :=
        length_dropWhile_lt (by simpa using hd)
      omega

/-- A numeral takes up at least one character. -/
theorem length_lt_of_scan {n : Numeral} {text rest : List Char}
    (h : scan text = .complete n rest) : rest.length < text.length := by
  unfold scan at h
  split at h
  · have := length_lt_of_scanWhole h
    simp only [List.length_cons]; omega
  · exact length_lt_of_scanWhole h

/-! ## The value of a numeral -/

/-- The largest number of 64 bits. -/
def wordLimit : Nat := 2 ^ 64 - 1

/-- Append digits to a number for as long as it fits 64 bits; the digits left over. -/
def gather (n : Nat) : List Char → Nat × List Char
  | [] => (n, [])
  | c :: rest =>
    let next := 10 * n + (c.toNat - '0'.toNat)
    if next ≤ wordLimit then gather next rest else (n, c :: rest)

/-- The largest power of ten that is finite as a binary number. -/
def greatestPower : Nat := 308

/-- A magnitude divided by a power of ten, in steps of finite powers. -/
def shrink (x : Binary64) (places : Nat) : Binary64 :=
  if places ≤ greatestPower then x.dividedBy (.ofNat (10 ^ places))
  else if x.isZero then x
  else shrink (x.dividedBy (.ofNat (10 ^ greatestPower))) (places - greatestPower)
termination_by places
decreasing_by simp only [greatestPower] at *; omega

/-- `significand * 10 ^ exponent` as a binary number, unless it is too large for one. -/
def magnitude? (significand : Nat) (exponent : Int) : Option Binary64 :=
  if exponent < 0 then some (shrink (.ofNat significand) (-exponent).toNat)
  else if exponent.toNat ≤ greatestPower then
    let x := (Binary64.ofNat significand).times (.ofNat (10 ^ exponent.toNat))
    if x.isInfinite then none else some x
  else if significand = 0 then some .zero
  else none

/-- What a numeral stands for. -/
inductive Value where
  | integer (i : Int)
  | real (x : Binary64)
  | outOfRange
  deriving DecidableEq, Repr

/-- The number that digits write. -/
def ofDigits (digits : List Char) : Nat := Nat.ofDigitChars 10 digits 0

/-- The exponent as written. -/
def writtenExponent (n : Numeral) : Int :=
  match n.exponent with
  | none => 0
  | some (true, digits) => -ofDigits digits
  | some (false, digits) => ofDigits digits

/-- A numeral read as a binary number. -/
def realValue (n : Numeral) : Value :=
  let (leading, left) := gather 0 n.whole
  let fraction := n.fraction.getD []
  let (significand, unused) := gather leading fraction
  let used : Int := fraction.length - unused.length
  match magnitude? significand (left.length - used + n.writtenExponent) with
  | none => .outOfRange
  | some x => .real (if n.negative then x.negate else x)

/-- The value of a numeral. Whole numbers of 64 bits are integers, except that a zero
with a minus is a binary number. -/
def value (n : Numeral) : Value :=
  match n.fraction, n.exponent, gather 0 n.whole with
  | none, none, (m, []) =>
    if n.negative then
      if m = 0 ∨ 2 ^ 63 < m then n.realValue else .integer (-m)
    else .integer m
  | _, _, _ => n.realValue

example : scan "-0.50e+2,".toList =
    .complete ⟨true, ['0'], some ['5', '0'], some (false, ['2'])⟩ [','] := by decide +kernel
example : scan "01".toList = .malformed := by decide +kernel
example : scan "1.".toList = .cut := by decide +kernel

end Numeral
end StringReport
