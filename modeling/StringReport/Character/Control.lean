/-!
# Characters a terminal obeys

Two classes of characters act on a terminal instead of being shown by it: the
control characters, and the marks that reorder the text around them.
-/
namespace StringReport.Character

/-- The C0 and C1 control characters and DEL. -/
def isControl (c : Char) : Bool :=
  c.toNat < 0x20 || (0x7f ≤ c.toNat && c.toNat ≤ 0x9f)

/-- The directional marks, embeddings, overrides and isolates. -/
def isBidiControl (c : Char) : Bool :=
  c.toNat == 0x061c || c.toNat == 0x200e || c.toNat == 0x200f ||
    (0x202a ≤ c.toNat && c.toNat ≤ 0x202e) || (0x2066 ≤ c.toNat && c.toNat ≤ 0x2069)

/-- The first 128 characters. -/
def isAscii (c : Char) : Bool := c.toNat < 0x80

/-- The escape character, which opens a terminal sequence. -/
def escape : Char := '\x1b'

theorem isControl_escape : isControl escape = true := by decide

end StringReport.Character
