/-!
# Hexadecimal addresses

Offsets of one listing are padded to a common width, so that their texts line up
and sort as the numbers do.
-/
namespace StringReport.Hex

/-- The digits of a number in lower case, most significant first; zero has one. -/
def digits (n : Nat) : List Char := Nat.toDigits 16 n

/-- The digits, with leading zeros up to the given width. -/
def padded (width n : Nat) : List Char := (digits n).leftpad width '0'

/-- How many digits a value takes. -/
def width (value : UInt64) : Nat := (digits value.toNat).length

/-- A value as `0x` and its digits. -/
def address (value : UInt64) : String := "0x" ++ String.ofList (digits value.toNat)

/-- A value as `0x` and its digits, padded to the width of its listing. -/
def offset (value : UInt64) (width : Nat) : String :=
  "0x" ++ String.ofList (padded width value.toNat)

/-- A value as `0x` and its digits in upper case. -/
def upper (value : UInt64) : String :=
  "0x" ++ String.ofList ((digits value.toNat).map Char.toUpper)

/-- The value of one digit, of either case. -/
def digitValue? (c : Char) : Option Nat :=
  if '0' ≤ c ∧ c ≤ '9' then some (c.toNat - '0'.toNat)
  else if 'a' ≤ c ∧ c ≤ 'f' then some (c.toNat - 'a'.toNat + 10)
  else if 'A' ≤ c ∧ c ≤ 'F' then some (c.toNat - 'A'.toNat + 10)
  else none

/-- The number that digits of either case write, most significant first. -/
def value? (cs : List Char) : Option Nat :=
  cs.foldlM (fun n c => (digitValue? c).map (16 * n + ·)) 0

@[simp] theorem length_padded (w n : Nat) : (padded w n).length = max w (digits n).length := by
  simp only [padded, List.leftpad, List.length_append, List.length_replicate]
  omega

theorem digits_ne_nil (n : Nat) : digits n ≠ [] := Nat.toDigits_ne_nil

theorem width_pos (value : UInt64) : 0 < width value := Nat.length_toDigits_pos

end StringReport.Hex
