/-!
# Ranges of characters

Classes of characters are tables of ranges, in ascending order, of the numbers of the
characters.
-/
namespace StringReport.Character

/-- Whether one of the ranges, ends included, holds the character. -/
def inRanges (ranges : List (Nat × Nat)) (c : Char) : Bool :=
  ranges.any fun range => range.1 ≤ c.toNat && c.toNat ≤ range.2

end StringReport.Character
