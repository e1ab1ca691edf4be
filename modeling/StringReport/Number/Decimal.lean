import StringReport.Number.Binary64

/-!
# Decimal texts of binary numbers

The shortest text of a number has the fewest digits that still read back as that
number, and of those the digits nearest to it. The text with fixed places rounds the
exact value, a tie to the even digit.
-/
namespace StringReport

/-- The number `digits * 10 ^ exponent`. -/
structure Decimal where
  digits : Nat
  exponent : Int
  deriving DecidableEq, Repr

namespace Decimal

/-- The digits of a natural number, most significant first. -/
def digitsOf (n : Nat) : List Char := Nat.toDigits 10 n

/-- Drop the trailing zeros of the digits; at most `fuel` of them. -/
def trim : (fuel : Nat) → Decimal → Decimal
  | 0, d => d
  | fuel + 1, d =>
    if d.digits ≠ 0 ∧ d.digits % 10 = 0 then trim fuel ⟨d.digits / 10, d.exponent + 1⟩ else d

/-- Where positional writing gives way to an exponent: the place of the first digit is
at least -5 and below 16 in a positional text. -/
def isPositional (place : Int) : Bool := -5 ≤ place && place < 16

/-- A decimal as text. A whole number keeps one zero after its point. -/
def text (d : Decimal) : List Char :=
  let ds := digitsOf d.digits
  let place : Int := d.exponent + ds.length - 1
  if isPositional place then
    if 0 ≤ d.exponent then ds ++ List.replicate d.exponent.toNat '0' ++ ['.', '0']
    else if 0 ≤ place then
      ds.take (place.toNat + 1) ++ '.' :: ds.drop (place.toNat + 1)
    else '0' :: '.' :: List.replicate (-place - 1).toNat '0' ++ ds
  else
    let fraction := if ds.length ≤ 1 then [] else '.' :: ds.drop 1
    ds.take 1 ++ fraction ++ 'e' :: (if place < 0 then '-' else '+') :: digitsOf place.natAbs

end Decimal

namespace Binary64

/-- The place of the first digit of a positive quotient: the greatest `k` with
`10 ^ k ≤ num / den`, for quotients from `10 ^ (-330)` on. -/
def leadingPlace (num den : Nat) : Int :=
  ((Decimal.digitsOf (num * 10 ^ 330 / den)).length : Int) - 331

/-- The multiples of `10 ^ exponent` next to a number that read back as it: of the one
below and the one above, those inside the rounding interval, and the nearer if both are.

All is measured in quarters of the number's unit: the interval reaches two quarters up
and two down, or one down at a power of two. Its ends belong to it if the significand is
even. -/
def gridPoint? (x : Binary64) (exponent : Int) : Option Decimal :=
  let value := 4 * x.significand
  let low := if x.fractionField = 0 ∧ 1 < x.exponentField then value - 1 else value - 2
  let high := value + 2
  let unit := 2 ^ (x.scale - 2).toNat * 10 ^ (-exponent).toNat
  let step := 2 ^ (2 - x.scale).toNat * 10 ^ exponent.toNat
  let below := value * unit / step
  let inside (point : Nat) : Bool :=
    if x.significand % 2 = 0 then low * unit ≤ point * step && point * step ≤ high * unit
    else low * unit < point * step && point * step < high * unit
  let twice := 2 * (value * unit)
  let middle := (2 * below + 1) * step
  match inside below, inside (below + 1) with
  | true, true =>
    if twice < middle ∨ (twice = middle ∧ below % 2 = 0) then some ⟨below, exponent⟩
    else some ⟨below + 1, exponent⟩
  | true, false => some ⟨below, exponent⟩
  | false, true => some ⟨below + 1, exponent⟩
  | false, false => none

/-- The decimal with the fewest digits that reads back as the magnitude of a finite
number. Seventeen digits always do. -/
def shortest (x : Binary64) : Decimal :=
  let place := leadingPlace x.numerator x.denominator
  let found := (List.range 17).findSome? fun (more : Nat) => x.gridPoint? (place - more)
  (found.getD ⟨0, 0⟩).trim 17

/-- The shortest text of a number. -/
def text (x : Binary64) : String :=
  let magnitude := if x.isZero then ['0', '.', '0'] else x.shortest.text
  String.ofList (if x.isNegative then '-' :: magnitude else magnitude)

/-- The text of a number with a fixed count of places. -/
def fixed (places : Nat) (x : Binary64) : String :=
  let magnitude : List Char :=
    if x.isNaN then ['N', 'a', 'N']
    else if x.isInfinite then ['i', 'n', 'f']
    else
      let scaled := Rounding.halfEven (x.numerator * 10 ^ places) x.denominator
      Decimal.digitsOf (scaled / 10 ^ places) ++
        '.' :: (Decimal.digitsOf (scaled % 10 ^ places)).leftpad places '0'
  String.ofList (if x.isNegative && !x.isNaN then '-' :: magnitude else magnitude)

example : text (ofQuotient 1 10) = "0.1" := by decide +kernel
example : text (ofNat (10 ^ 15)) = "1000000000000000.0" := by decide +kernel
example : text (ofNat (10 ^ 16)) = "1e+16" := by decide +kernel
example : text (ofQuotient 1 100000) = "0.00001" := by decide +kernel
example : text (ofQuotient 15 10000000) = "1.5e-6" := by decide +kernel
example : text ⟨1⟩ = "5e-324" := by decide +kernel
example : fixed 3 (ofQuotient 1 16) = "0.062" := by decide +kernel

end Binary64
end StringReport
