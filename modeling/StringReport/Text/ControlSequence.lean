import StringReport.Character.Control

/-!
# Control sequences in a text

A control sequence is obeyed by a terminal and takes no columns. To a measurement, a sequence
is the longest beginning of the text that is one of a handful of common forms, which set
styles and move the cursor, or a string sent to the terminal, up to what ends it. A text is
cut into the pieces between its sequences.
-/
namespace StringReport.ControlSequence

/-- The escape character, and the one character that stands for it and a bracket. -/
def isIntroducer (c : Char) : Bool := c = Character.escape || c.toNat == 0x9b

/-! ## Common forms -/

/-- How far a sequence of a common form has been read. -/
inductive Phase where
  | opened
  /-- After a parenthesis: the name of a character set is due. -/
  | charset
  | charsetNamed
  /-- After brackets, marks and semicolons only. -/
  | marked
  /-- In a number of so many digits. -/
  | number (digits : Nat)
  /-- After a semicolon that ended a number. -/
  | separated
  | complete
  deriving DecidableEq, Repr

namespace Phase

/-- Whether a sequence can end here. -/
def isFinal : Phase → Bool
  | charsetNamed | number _ | complete => true
  | _ => false

/-- The characters that can end a sequence, digits apart. -/
def isEnding (c : Char) : Bool :=
  ('A' ≤ c && c ≤ 'P') || ('f' ≤ c && c ≤ 'n') || "RZcqry=><".toList.contains c

/-- Read one more character. -/
def step (phase : Phase) (c : Char) : Option Phase :=
  if c = '(' ∨ c = ')' then
    match phase with
    | opened => some charset
    | charset | marked => some marked
    | _ => none
  else if c = ';' then
    match phase with
    | opened | charset | marked => some marked
    | number digits => if digits < 5 then some separated else none
    | separated => some separated
    | _ => none
  else if c = '[' ∨ c = '#' ∨ c = '?' then
    match phase with
    | opened | charset | marked => some marked
    | _ => none
  else if c.isDigit then
    match phase with
    | opened | marked | separated => some (number 1)
    | charset => some (if c ≤ '2' then charsetNamed else number 1)
    | number digits => if digits < 5 then some (number (digits + 1)) else none
    | _ => none
  else if isEnding c then
    match phase with
    | opened | charset | marked | separated => some complete
    | number digits => if digits < 5 then some complete else none
    | _ => none
  else none

end Phase

/-- The length of the longest beginning that is a sequence, after `read` characters, of
which the first `best` are one. -/
def longest (phase : Phase) (read : Nat) (best : Option Nat) : List Char → Option Nat
  | [] => best
  | c :: rest =>
    match phase.step c with
    | none => best
    | some next => longest next (read + 1) (if next.isFinal then some (read + 1) else best) rest

/-! ## Strings -/

/-- The length of a string sent to the terminal up to what ends it: a string terminator, the
escape character and a backslash, or a bell where that will do. The escape character takes the
next one with it, whatever it is. A string that is not ended takes the rest of the text. -/
def stringLength (bell : Bool) : List Char → Nat
  | [] => 0
  | [_] => 1
  | c :: d :: rest =>
    if c = Character.escape then if d = '\\' then 2 else stringLength bell rest + 2
    else if c.toNat = 0x9c ∨ (bell ∧ c.toNat = 0x07) then 1
    else stringLength bell (d :: rest) + 1

/-- The length of the sequence at the beginning of a text, if there is one. -/
def length? : List Char → Option Nat
  | [] => none
  | c :: rest =>
    if c = Character.escape then
      match rest with
      | ']' :: command => some (stringLength true command + 2)
      | 'P' :: control => some (stringLength false control + 2)
      | _ => longest .opened 1 none rest
    else if isIntroducer c then longest .opened 1 none rest
    else none

/-! ## Cutting -/

/-- A text cut at its sequences, after `skip` characters that belong to one: the first
piece and the pieces after it. -/
def cut : (skip : Nat) → List Char → List Char × List (List Char)
  | _, [] => ([], [])
  | skip + 1, _ :: rest => cut skip rest
  | 0, c :: rest =>
    match length? (c :: rest) with
    | some length =>
      let (first, later) := cut (length - 1) rest
      ([], first :: later)
    | none =>
      let (first, later) := cut 0 rest
      (c :: first, later)

/-- The pieces of a text between its sequences. -/
def pieces (text : List Char) : List (List Char) :=
  let (first, later) := cut 0 text
  first :: later

theorem length?_eq_none {c : Char} (h : isIntroducer c = false) (rest : List Char) :
    length? (c :: rest) = none := by
  have hc : c ≠ Character.escape := by rintro rfl; exact absurd h (by decide)
  simp [length?, h, hc]

/-- A text in which no sequence begins is one piece. -/
theorem pieces_eq_singleton {text : List Char} (h : ∀ c ∈ text, isIntroducer c = false) :
    pieces text = [text] := by
  have cut_eq : cut 0 text = (text, []) := by
    induction text with
    | nil => rfl
    | cons c rest ih =>
      simp [cut, length?_eq_none (h c (by simp)), ih fun d hd => h d (by simp [hd])]
  simp [pieces, cut_eq]

end StringReport.ControlSequence
