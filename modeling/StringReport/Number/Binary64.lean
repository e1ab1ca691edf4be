import StringReport.Number.Rounding

/-!
# Numbers of 64 bits with a binary point

A number is held as its bit pattern, and everything about it is computed exactly from
those bits: a finite number has the magnitude `significand * 2 ^ scale`. Arithmetic is
done on exact quotients, which are rounded once.
-/
namespace StringReport

/-- A number in the binary interchange format of 64 bits. -/
structure Binary64 where
  bits : UInt64
  deriving DecidableEq, Repr, Inhabited

namespace Binary64

def exponentField (x : Binary64) : Nat := x.bits.toNat / 2 ^ 52 % 2 ^ 11

def fractionField (x : Binary64) : Nat := x.bits.toNat % 2 ^ 52

def isNegative (x : Binary64) : Bool := 2 ^ 63 ≤ x.bits.toNat

def isFinite (x : Binary64) : Bool := x.exponentField ≠ 2047

def isInfinite (x : Binary64) : Bool := x.exponentField = 2047 ∧ x.fractionField = 0

def isNaN (x : Binary64) : Bool := x.exponentField = 2047 ∧ x.fractionField ≠ 0

/-- The significand of a finite number, with its leading bit. -/
def significand (x : Binary64) : Nat :=
  if x.exponentField = 0 then x.fractionField else x.fractionField + 2 ^ 52

/-- The power of two by which a finite number scales its significand. -/
def scale (x : Binary64) : Int := (max x.exponentField 1 : Nat) - 1075

/-- The numerator of the magnitude of a finite number. -/
def numerator (x : Binary64) : Nat := x.significand * 2 ^ x.scale.toNat

/-- The denominator of the magnitude of a finite number. -/
def denominator (x : Binary64) : Nat := 2 ^ (-x.scale).toNat

/-- Zero, of either sign. -/
def isZero (x : Binary64) : Bool := x.exponentField = 0 ∧ x.fractionField = 0

def zero : Binary64 := ⟨0⟩

/-- The bit pattern of positive infinity. -/
def infinityBits : Nat := 0x7ff0000000000000

def infinity : Binary64 := ⟨0x7ff0000000000000⟩

/-- The same magnitude below zero. -/
def negate (x : Binary64) : Binary64 := ⟨x.bits ^^^ 0x8000000000000000⟩

/-- The exponent that gives a quotient a significand of 53 bits, or as many as the
smallest exponent leaves it. -/
def roundingExponent (num den : Nat) : Int :=
  let estimate : Int := (num.log2 : Int) - (den.log2 : Int) - 52
  let fits := den * 2 ^ estimate.toNat * 2 ^ 52 ≤ num * 2 ^ (-estimate).toNat
  max (-1074) (if fits then estimate else estimate - 1)

/-- The number nearest to a quotient; a tie goes to the even significand, and what is
too large becomes infinite. A significand that rounds up to the next power of two carries
into the exponent field by itself. -/
def ofQuotient (num den : Nat) : Binary64 :=
  if num = 0 then zero
  else
    let exponent := roundingExponent num den
    let significand :=
      Rounding.halfEven (num * 2 ^ (-exponent).toNat) (den * 2 ^ exponent.toNat)
    ⟨(min ((exponent + 1074).toNat * 2 ^ 52 + significand) infinityBits).toUInt64⟩

/-- The number nearest to a natural number. -/
def ofNat (n : Nat) : Binary64 := ofQuotient n 1

/-- The rounded product of two magnitudes. -/
def times (x y : Binary64) : Binary64 :=
  ofQuotient (x.numerator * y.numerator) (x.denominator * y.denominator)

/-- The rounded quotient of two magnitudes. -/
def dividedBy (x y : Binary64) : Binary64 :=
  ofQuotient (x.numerator * y.denominator) (x.denominator * y.numerator)

/-- The magnitude rounded to whole units, a half upward, as far as 64 bits reach; a
number below zero, or none at all, counts as zero. -/
def wholeUnits (x : Binary64) : Nat :=
  if x.isNaN || x.isNegative then 0
  else if x.isInfinite then 2 ^ 64 - 1
  else min (Rounding.halfUp x.numerator x.denominator) (2 ^ 64 - 1)

theorem denominator_pos (x : Binary64) : 0 < x.denominator := Nat.two_pow_pos _

example : ofNat 1 = ⟨0x3ff0000000000000⟩ := by decide +kernel
example : ofQuotient 1 10 = ⟨0x3fb999999999999a⟩ := by decide +kernel
example : ofNat (10 ^ 309) = infinity := by decide +kernel
example : ofQuotient 1 (10 ^ 400) = zero := by decide +kernel

end Binary64
end StringReport
