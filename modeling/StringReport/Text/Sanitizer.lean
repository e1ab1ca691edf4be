import StringReport.Character.Control
import StringReport.Number.Hex

/-!
# Showing untrusted text

A string found in a hostile file may hold anything a terminal would act on. A
sanitizer makes such a string safe before it is shown. The one defined here writes
every control character and every bidirectional control as an escape, and keeps a
backslash as it is, so that what it writes is left alone when it is met again.
-/
namespace StringReport

/-- What is shown for an untrusted text; the flag asks for ASCII only. -/
abbrev Sanitizer := String → Bool → String

namespace Sanitizer

/-- A character by its number: two digits up to U+00FF, braces above. -/
def numbered (c : Char) : List Char :=
  if c.toNat ≤ 0xff then '\\' :: 'x' :: Hex.padded 2 c.toNat
  else '\\' :: 'u' :: '{' :: Hex.padded 4 c.toNat ++ ['}']

/-- Whether a character has to be escaped. -/
def mustEscape (asciiOnly : Bool) (c : Char) : Bool :=
  Character.isControl c || Character.isBidiControl c || (asciiOnly && !Character.isAscii c)

/-- How one character is shown. -/
def shown (asciiOnly : Bool) (c : Char) : List Char :=
  if c = '\n' then ['\\', 'n']
  else if c = '\r' then ['\\', 'r']
  else if c = '\t' then ['\\', 't']
  else if mustEscape asciiOnly c then numbered c
  else [c]

/-- The sanitizer for terminals. -/
def terminal : Sanitizer := fun value asciiOnly =>
  String.ofList (value.toList.flatMap (shown asciiOnly))

/-- The sanitizer that changes nothing. -/
def identity : Sanitizer := fun value _ => value

@[simp] theorem toList_terminal (value : String) (asciiOnly : Bool) :
    (terminal value asciiOnly).toList = value.toList.flatMap (shown asciiOnly) := by
  simp [terminal]

/-- A character that needs no escape is shown as itself. -/
theorem shown_of_not_mustEscape {asciiOnly : Bool} {c : Char}
    (h : mustEscape asciiOnly c = false) : shown asciiOnly c = [c] := by
  have hc : Character.isControl c = false := by
    simp only [mustEscape, Bool.or_eq_false_iff] at h
    exact h.1.1
  have hn : c ≠ '\n' := by rintro rfl; revert hc; decide
  have hr : c ≠ '\r' := by rintro rfl; revert hc; decide
  have ht : c ≠ '\t' := by rintro rfl; revert hc; decide
  simp [shown, hn, hr, ht, h]

end Sanitizer
end StringReport
