/-!
# Powers and sums of natural numbers

Lengths, widths and heights are summed and numbers are scaled by powers. An algebraic library
brings a power and a zero of its own for the natural numbers, which are equal to those of the
core library but are other terms. The latter are preferred, so that a formula is one term
wherever it stands.
-/
namespace StringReport

attribute [scoped instance (high)] instPowNat Zero.ofOfNat0

-- A power of two numerals takes its instance from here.
attribute [default_instance (high + 1)] instPowNat

end StringReport
