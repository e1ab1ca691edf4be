import StringReport.Character.Columns

/-!
# Letters that are written as one

In some scripts two or three letters in a row are drawn as one sign. The classes of letters
that do so stand here.
-/
namespace StringReport.Character

/-! ## Arabic -/

/-- The letter alef and its variants. -/
def alefRanges : List (Nat × Nat) :=
    [(0x0622, 0x0623), (0x0625, 0x0625), (0x0627, 0x0627), (0x0671, 0x0673), (0x0675, 0x0675),
    (0x0773, 0x0774), (0x0870, 0x0882)]

/-- The letter lam and its variants. -/
def lamRanges : List (Nat × Nat) :=
    [(0x0644, 0x0644), (0x06b5, 0x06b8), (0x076a, 0x076a), (0x08a6, 0x08a6), (0x08c7, 0x08c7)]

/-- The invisible characters that part a lam from its alef. -/
def partingRanges : List (Nat × Nat) :=
    [(0x0605, 0x0605), (0x0890, 0x0891), (0x08e2, 0x08e2), (0x09be, 0x09be), (0x09d7, 0x09d7),
    (0x0b3e, 0x0b3e), (0x0b57, 0x0b57), (0x0bbe, 0x0bbe), (0x0bd7, 0x0bd7), (0x0cc0, 0x0cc0),
    (0x0cc2, 0x0cc2), (0x0cc7, 0x0cc8), (0x0cca, 0x0ccb), (0x0cd5, 0x0cd6), (0x0d3e, 0x0d3e),
    (0x0d4e, 0x0d4e), (0x0d57, 0x0d57), (0x0dcf, 0x0dcf), (0x0ddf, 0x0ddf), (0x1160, 0x11ff),
    (0x1715, 0x1715), (0x1734, 0x1734), (0x180e, 0x180e), (0x1b35, 0x1b35), (0x1b3b, 0x1b3b),
    (0x1b3d, 0x1b3d), (0x1b43, 0x1b44), (0x1baa, 0x1baa), (0x1bf2, 0x1bf3), (0x200c, 0x200d),
    (0x2065, 0x2069), (0x302e, 0x302f), (0x3164, 0x3164), (0xa8fa, 0xa8fa), (0xa953, 0xa953),
    (0xa9c0, 0xa9c0), (0xd7b0, 0xd7c6), (0xd7cb, 0xd7fb), (0xffa0, 0xffa0), (0xfff0, 0xfff8),
    (0x111c0, 0x111c0), (0x111c2, 0x111c3), (0x11235, 0x11235), (0x1133e, 0x1133e),
    (0x1134d, 0x1134d), (0x11357, 0x11357), (0x113b8, 0x113b8), (0x113c2, 0x113c2),
    (0x113c5, 0x113c5), (0x113c7, 0x113c9), (0x113cf, 0x113cf), (0x113d1, 0x113d1),
    (0x114b0, 0x114b0), (0x114bd, 0x114bd), (0x115af, 0x115af), (0x116b6, 0x116b6),
    (0x11930, 0x11930), (0x1193d, 0x1193d), (0x1193f, 0x1193f), (0x11941, 0x11941),
    (0x11a3a, 0x11a3a), (0x11a84, 0x11a89), (0x11d46, 0x11d46), (0x11f02, 0x11f02),
    (0x11f41, 0x11f41), (0x16ff0, 0x16ff1), (0x1d165, 0x1d166), (0x1d16d, 0x1d172),
    (0xe0000, 0xe0000), (0xe0002, 0xe001f), (0xe0080, 0xe00ff), (0xe01f0, 0xe0fff)]

def isAlef (c : Char) : Bool := inRanges alefRanges c

def isLam (c : Char) : Bool := inRanges lamRanges c

/-- The marks that can stand between a lam and its alef. -/
def joinsLam (c : Char) : Bool := columns c == 0 && !inRanges partingRanges c

/-! ## Other scripts -/

/-- The Khmer letters that can be written below another. -/
def subscriptRanges : List (Nat × Nat) :=
    [(0x1780, 0x1782), (0x1784, 0x1787), (0x1789, 0x178c), (0x178e, 0x1793), (0x1795, 0x1798),
    (0x179b, 0x179d), (0x17a0, 0x17a0), (0x17a2, 0x17a2), (0x17a7, 0x17a7), (0x17ab, 0x17ac),
    (0x17af, 0x17af)]

def isSubscript (c : Char) : Bool := inRanges subscriptRanges c

/-- The Khmer sign that puts the next letter below. -/
def isCoeng (c : Char) : Bool := c.toNat == 0x17d2

/-- The consonants of Tifinagh. -/
def isTifinagh (c : Char) : Bool :=
  (0x2d31 ≤ c.toNat && c.toNat ≤ 0x2d65) || c.toNat == 0x2d6f

/-- The joiner of Tifinagh consonants. -/
def isTifinaghJoiner (c : Char) : Bool := c.toNat == 0x2d7f

/-- The Lisu tone letters that can come first of two. -/
def isFirstTone (c : Char) : Bool := 0xa4f8 ≤ c.toNat && c.toNat ≤ 0xa4fb

/-- The Lisu tone letters that can come second. -/
def isSecondTone (c : Char) : Bool := 0xa4fc ≤ c.toNat && c.toNat ≤ 0xa4fd

/-- The invisible characters that can stand between letters written as one. -/
def seamRanges : List (Nat × Nat) :=
    [(0x034f, 0x034f), (0x17b4, 0x17b5), (0x180b, 0x180d), (0x180f, 0x180f), (0x200d, 0x200d),
    (0xfe00, 0xfe0f), (0xe0100, 0xe01ef)]

def isSeam (c : Char) : Bool := inRanges seamRanges c

end StringReport.Character
