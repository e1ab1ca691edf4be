import StringReport.Text.Split
import StringReport.Text.Terminal

/-!
# Styles that last from line to line

A control sequence can set a style that lasts until it is taken back, past the end of its
line. A cell of several lines is drawn so that each line stands by itself: it opens with the
style that the lines before it have left on, and closes with what takes back the style that
is on at its own end. An empty line stays empty.

What a code that is not known sets can only be taken back by taking back everything.
-/
namespace StringReport

/-- What is switched on: marks such as bold or underlined by their codes, and colors by the
parameters that set them; whether everything has been taken back, and whether there has been
a code since that is not known. -/
structure Style where
  marks : List Nat
  foreground : Option String
  background : Option String
  underline : Option String
  reset : Bool
  unknown : Bool
  deriving DecidableEq, Repr

namespace Style

/-- The style in which nothing is switched on. -/
def plain : Style := ⟨[], none, none, none, false, false⟩

/-- The code that takes a mark back, if the code given is that of a mark. -/
def takenBackBy? (code : Nat) : Option Nat :=
  if code = 1 ∨ code = 2 then some 22
  else if code = 3 ∨ code = 20 then some 23
  else if code = 4 ∨ code = 21 then some 24
  else if code = 5 ∨ code = 6 then some 25
  else if 7 ≤ code ∧ code ≤ 9 then some (code + 20)
  else if 11 ≤ code ∧ code ≤ 19 then some 10
  else if code = 26 then some 50
  else if code = 51 ∨ code = 52 then some 54
  else if code = 53 then some 55
  else if 60 ≤ code ∧ code ≤ 64 then some 65
  else if code = 73 ∨ code = 74 then some 75
  else none

/-- Whether a code is that of a font. -/
def isFont (code : Nat) : Bool := takenBackBy? code == some 10

/-- The codes that take back marks written before the colors. -/
def earlyBackCodes : List Nat := [10, 22, 23, 24, 25, 27, 28, 29, 50]

/-- The codes that take back marks written after the colors. -/
def lateBackCodes : List Nat := [54, 55, 65, 75]

/-- Whether there is something to carry on to the next line. A font by itself is not. -/
def isCarried (style : Style) : Bool :=
  style.marks.any (fun mark => !isFont mark) || style.foreground.isSome ||
    style.background.isSome || style.underline.isSome || style.reset || style.unknown

/-! ## Reading -/

/-- Switch a mark on. There is one font at a time. -/
def mark (style : Style) (code : Nat) : Style :=
  let kept := if isFont code then style.marks.filter fun mark => !isFont mark else style.marks
  { style with marks := code :: kept }

/-- Carry out one code. -/
def switch (style : Style) (code : Nat) : Style :=
  if code = 0 then { plain with reset := true }
  else if code = 39 then { style with foreground := none }
  else if code = 49 then { style with background := none }
  else if code = 59 then { style with underline := none }
  else if (30 ≤ code ∧ code ≤ 37) ∨ (90 ≤ code ∧ code ≤ 97) then
    { style with foreground := some (toString code) }
  else if (40 ≤ code ∧ code ≤ 47) ∨ (100 ≤ code ∧ code ≤ 107) then
    { style with background := some (toString code) }
  else if (takenBackBy? code).isSome then style.mark code
  else if earlyBackCodes.contains code || lateBackCodes.contains code then
    { style with marks := style.marks.filter fun mark => takenBackBy? mark ≠ some code }
  else { style with unknown := true }

/-- Set a color that is given by more than one code, the first of which says which color is
meant. -/
def setColor (style : Style) (codes : List Nat) : Style :=
  let color := some (";".intercalate (codes.map toString))
  match codes.head? with
  | some 38 => { style with foreground := color }
  | some 48 => { style with background := color }
  | _ => { style with underline := color }

/-- Carry out the codes of a sequence, of which some cannot be read. A color is given by an
index or by its parts, which are 0 where they cannot be read; one that is given in another
way is passed over. -/
def carryOut (style : Style) : List (Option Nat) → Style
  | [] => style
  | none :: rest => carryOut { style with unknown := true } rest
  | some code :: rest =>
    if code = 38 ∨ code = 48 ∨ code = 58 then
      match rest with
      | some 5 :: index :: rest => carryOut (style.setColor [code, 5, index.getD 0]) rest
      | some 2 :: red :: green :: blue :: rest =>
        carryOut (style.setColor [code, 2, red.getD 0, green.getD 0, blue.getD 0]) rest
      | some 2 :: _ => style
      | _ :: rest => carryOut style rest
      | [] => style
    else carryOut (style.switch code) rest

/-- A code that is written in digits. One that does not fit a byte, or starts with a 0 that
is not all of it, is read as 0. -/
def code? (digits : List Char) : Option Nat :=
  if digits = [] ∨ ¬ digits.all Char.isDigit then none
  else
    let code := Nat.ofDigitChars 10 digits 0
    some (if 255 < code ∨ (digits.head? = some '0' ∧ digits ≠ ['0']) then 0 else code)

/-- The codes of a sequence that sets a style: those between its bracket and its final
character. If nothing stands there, the code is 0. -/
def codes (sequence : List Char) : List (Option Nat) :=
  let parameters := ((sequence.dropWhile (· ≠ '[')).drop 1).dropLast
  if parameters = [] then [some 0] else (partsOn ';' parameters).map code?

/-- The style after a text. -/
def after (style : Style) (text : String) : Style :=
  (Terminal.styleSequences text.toList).foldl (fun style sequence =>
    style.carryOut (codes sequence)) style

/-! ## Writing -/

/-- The sequence of some parameters. -/
def sequence (parameters : String) : String := "\x1b[" ++ parameters ++ "m"

/-- The codes of marks that are written before the colors. -/
def earlyMarks : List Nat :=
  [1, 2, 3, 4, 5, 6, 7, 8, 9, 11, 12, 13, 14, 15, 16, 17, 18, 19, 20, 21, 26]

/-- The codes of marks that are written after the colors. -/
def lateMarks : List Nat := [51, 52, 53, 60, 61, 62, 63, 64, 73, 74]

/-- What switches the style on. -/
def opening (style : Style) : String :=
  let marksOf (codes : List Nat) := (codes.filter (style.marks.contains ·)).map toString
  let colors := [style.foreground, style.background, style.underline].filterMap id
  if style.isCarried then
    String.join ((marksOf earlyMarks ++ colors ++ marksOf lateMarks).map sequence)
  else ""

/-- What switches the style off. -/
def closing (style : Style) : String :=
  let needed (codes : List Nat) := codes.filter fun back =>
    style.marks.any fun mark => takenBackBy? mark = some back
  let colors :=
    (if style.foreground.isSome then [39] else []) ++
    (if style.background.isSome then [49] else []) ++
    (if style.underline.isSome then [59] else [])
  let unknown := if style.unknown then [0] else []
  let first := if style.reset then unknown else []
  if style.isCarried then
    String.join ((first ++ needed earlyBackCodes ++ colors ++ needed lateBackCodes ++
      unknown).map fun code => sequence (toString code))
  else ""

/-- Lines that follow on each other, each made to stand by itself. -/
def carry (style : Style) : List String → List String
  | [] => []
  | line :: lines =>
    let next := style.after line
    (if line = "" then "" else style.opening ++ line ++ next.closing) :: carry next lines

@[simp] theorem opening_plain : plain.opening = "" := by decide

@[simp] theorem closing_plain : plain.closing = "" := by decide

theorem length_carry (style : Style) (lines : List String) :
    (style.carry lines).length = lines.length := by
  induction lines generalizing style with
  | nil => rfl
  | cons line lines ih => simp [carry, ih]

/-- Lines that leave no style on are drawn as they are. -/
theorem carry_of_plain {lines : List String} (h : ∀ line ∈ lines, plain.after line = plain) :
    plain.carry lines = lines := by
  induction lines with
  | nil => rfl
  | cons line lines ih =>
    have hl := h line (by simp)
    have ih := ih fun l hm => h l (by simp [hm])
    by_cases he : line = ""
    · subst he
      simp [carry, hl, ih]
    · simp [carry, hl, he, ih]

/-- Without an escape character, a text changes no style. -/
theorem after_of_forall_ne {style : Style} {text : String}
    (h : ∀ c ∈ text.toList, c ≠ Character.escape) : style.after text = style := by
  simp [after, Terminal.styleSequences, Terminal.pieces_of_forall_ne h]

end Style
end StringReport
