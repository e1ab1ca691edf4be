import StringReport.Character.Unprintable
import StringReport.Number.Hex

/-!
# Texts quoted in messages

A message quotes a text between double quotes. Quotes, backslashes and the usual
blanks are escaped, and an unprintable character is written by its number.
-/
namespace StringReport

/-- One character of a quoted text. -/
def quotedChar (c : Char) : List Char :=
  if c = '"' then ['\\', '"']
  else if c = '\\' then ['\\', '\\']
  else if c = '\n' then ['\\', 'n']
  else if c = '\r' then ['\\', 'r']
  else if c = '\t' then ['\\', 't']
  else if c = Char.ofNat 0 then ['\\', '0']
  else if Character.isUnprintable c then '\\' :: 'u' :: '{' :: Hex.digits c.toNat ++ ['}']
  else [c]

/-- A text between quotes, as a message shows it. -/
def quoted (s : String) : String :=
  String.ofList ('"' :: s.toList.flatMap quotedChar ++ ['"'])

end StringReport
