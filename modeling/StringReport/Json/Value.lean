import StringReport.Number.Decimal

/-!
# JSON values and their text

A value is written over several lines: each item and each member on a line of its own,
two spaces deeper than its container. Empty containers stay on one line. A string escapes
what has to be escaped and nothing else.
-/
namespace StringReport.Json

/-- A value to be written. -/
inductive Value where
  | null
  | boolean (value : Bool)
  | natural (n : Nat)
  | real (x : Binary64)
  | string (s : String)
  | list (items : List Value)
  | object (members : List (String × Value))

instance : Inhabited Value := ⟨.null⟩

/-- One character of a string as written. -/
def writtenChar (c : Char) : List Char :=
  if c = '"' then ['\\', '"']
  else if c = '\\' then ['\\', '\\']
  else if c = '\x08' then ['\\', 'b']
  else if c = '\x0c' then ['\\', 'f']
  else if c = '\n' then ['\\', 'n']
  else if c = '\r' then ['\\', 'r']
  else if c = '\t' then ['\\', 't']
  else if c.toNat < 0x20 then
    ['\\', 'u', '0', '0', Nat.digitChar (c.toNat / 16), Nat.digitChar (c.toNat % 16)]
  else [c]

/-- A string between its quotes. -/
def writtenString (s : String) : List Char := '"' :: s.toList.flatMap writtenChar ++ ['"']

/-- A real number as written; only a finite one is a number. -/
def writtenReal (x : Binary64) : List Char :=
  if x.isFinite then x.text.toList else ['n', 'u', 'l', 'l']

/-- A new line at a depth. -/
def newLine (depth : Nat) : List Char := '\n' :: List.replicate (2 * depth) ' '

mutual

/-- A value as written at a depth. -/
def Value.written (depth : Nat) : Value → List Char
  | .null => ['n', 'u', 'l', 'l']
  | .boolean true => ['t', 'r', 'u', 'e']
  | .boolean false => ['f', 'a', 'l', 's', 'e']
  | .natural n => Nat.toDigits 10 n
  | .real x => writtenReal x
  | .string s => writtenString s
  | .list [] => ['[', ']']
  | .list (item :: items) =>
    '[' :: newLine (depth + 1) ++ item.written (depth + 1) ++
      writtenItems (depth + 1) items ++ newLine depth ++ [']']
  | .object [] => ['{', '}']
  | .object ((key, value) :: members) =>
    '{' :: newLine (depth + 1) ++ writtenString key ++ ':' :: ' ' ::
      value.written (depth + 1) ++ writtenMembers (depth + 1) members ++ newLine depth ++ ['}']

/-- The items after the first. -/
def writtenItems (depth : Nat) : List Value → List Char
  | [] => []
  | item :: items =>
    ',' :: newLine depth ++ item.written depth ++ writtenItems depth items

/-- The members after the first. -/
def writtenMembers (depth : Nat) : List (String × Value) → List Char
  | [] => []
  | (key, value) :: members =>
    ',' :: newLine depth ++ writtenString key ++ ':' :: ' ' :: value.written depth ++
      writtenMembers depth members

end

/-- The text of a value. -/
def Value.text (value : Value) : String := String.ofList (value.written 0)

end StringReport.Json
