import StringReport.Number.Numeral

/-!
# Tokens of a JSON text

A text is cut into tokens without asking what they will be used for. A string keeps its
characters as written, a number its digits. Where no token can be made the tokens end with
one that says why, since no reading goes beyond it.
-/
namespace StringReport.Json

/-- A string as written between its quotes. A string without a closing quote runs to the
end of the text. `beyond` counts the bytes that follow the characters, as far as four. -/
structure RawString where
  body : List Char
  closed : Bool
  beyond : Nat
  deriving DecidableEq, Repr

/-- The values that are written as a word. -/
inductive Literal where
  | null
  | boolean (value : Bool)
  deriving DecidableEq, Repr

/-- A token, or the reason why none can be made; `cut` tells an early end of the text. -/
inductive Token where
  | openBracket
  | closeBracket
  | openBrace
  | closeBrace
  | comma
  | colon
  | string (s : RawString)
  | number (n : Numeral)
  | literal (l : Literal)
  | badNumber (cut : Bool)
  | badLiteral (cut : Bool)
  | stray
  deriving DecidableEq, Repr

/-- The blanks between tokens. -/
def isSpace (c : Char) : Bool := c = ' ' || c = '\t' || c = '\n' || c = '\r'

/-- Split a text at the first quote that no backslash escapes; the second part starts with
that quote. -/
def splitString : List Char → List Char × List Char
  | [] => ([], [])
  | '"' :: rest => ([], '"' :: rest)
  | '\\' :: c :: rest =>
    let (body, after) := splitString rest
    ('\\' :: c :: body, after)
  | c :: rest =>
    let (body, after) := splitString rest
    (c :: body, after)

/-- The bytes a text starts with, as far as four characters. -/
def leadingBytes (text : List Char) : Nat := ((text.take 4).map Char.utf8Size).sum

/-- What is left of a text after the given spelling. -/
inductive Spelling where
  | complete (rest : List Char)
  | cut
  | different
  deriving DecidableEq, Repr

/-- Compare the start of a text with a spelling. -/
def spell : List Char → List Char → Spelling
  | [], rest => .complete rest
  | _ :: _, [] => .cut
  | w :: word, c :: rest => if c = w then spell word rest else .different

/-! ## Every token takes up text -/

theorem length_splitString_le (text : List Char) :
    (splitString text).2.length ≤ text.length := by
  fun_induction splitString text with
  | case1 => simp
  | case2 => simp
  | case3 c rest body after h ih => simp only [h] at ih; simp only [List.length_cons]; omega
  | case4 c rest _ _ body after h ih => simp only [h] at ih; simp only [List.length_cons]; omega

theorem length_le_of_spell {word text rest : List Char} (h : spell word text = .complete rest) :
    rest.length ≤ text.length := by
  fun_induction spell word text with
  | case1 => cases h; simp
  | case2 => cases h
  | case3 w word rest' ih => have := ih h; simp only [List.length_cons]; omega
  | case4 => cases h

/-- The tokens of one character. -/
def punctuation? : Char → Option Token
  | '[' => some .openBracket
  | ']' => some .closeBracket
  | '{' => some .openBrace
  | '}' => some .closeBrace
  | ',' => some .comma
  | ':' => some .colon
  | _ => none

/-- The literal that a character opens, and the characters still to come. -/
def literal? : Char → Option (Literal × List Char)
  | 'n' => some (.null, ['u', 'l', 'l'])
  | 't' => some (.boolean true, ['r', 'u', 'e'])
  | 'f' => some (.boolean false, ['a', 'l', 's', 'e'])
  | _ => none

/-- The string that a quote opens, and the text after it. -/
def stringToken (text : List Char) : Token × List Char :=
  match splitString text with
  | (body, []) => (.string ⟨body, false, 0⟩, [])
  | (body, quote :: after) => (.string ⟨body, true, leadingBytes (quote :: after)⟩, after)

/-- The number that a text opens with, and the text after it. -/
def numberToken (text : List Char) : Token × List Char :=
  match Numeral.scan text with
  | .complete n after => (.number n, after)
  | .cut => (.badNumber true, [])
  | .malformed => (.badNumber false, [])

/-- The literal of which the first character has been met, and the text after it. -/
def literalToken (l : Literal) (word text : List Char) : Token × List Char :=
  match spell word text with
  | .complete after => (.literal l, after)
  | .cut => (.badLiteral true, [])
  | .different => (.badLiteral false, [])

/-- The token that a character opens, and the text after it: none is left after a token
that could not be made. -/
def nextToken (c : Char) (rest : List Char) : Token × List Char :=
  match punctuation? c with
  | some token => (token, rest)
  | none =>
    if c = '"' then stringToken rest
    else if c = '-' ∨ c.isDigit then numberToken (c :: rest)
    else
      match literal? c with
      | some (l, word) => literalToken l word rest
      | none => (.stray, [])

theorem length_stringToken_le (text : List Char) :
    (stringToken text).2.length ≤ text.length := by
  have hs := length_splitString_le text
  unfold stringToken
  split
  · simp
  · next h =>
    rw [h] at hs
    simp only [List.length_cons] at hs ⊢
    omega

theorem length_numberToken_lt (text : List Char) (h : text ≠ []) :
    (numberToken text).2.length < text.length := by
  have hpos : 0 < text.length := List.length_pos_iff.2 h
  unfold numberToken
  split
  · next hs => exact Numeral.length_lt_of_scan hs
  · simpa using hpos
  · simpa using hpos

theorem length_literalToken_le (l : Literal) (word text : List Char) :
    (literalToken l word text).2.length ≤ text.length := by
  unfold literalToken
  split
  · next hs => exact length_le_of_spell hs
  · simp
  · simp

theorem length_nextToken_le (c : Char) (rest : List Char) :
    (nextToken c rest).2.length ≤ rest.length := by
  unfold nextToken
  split
  · exact Nat.le_refl _
  · split
    · exact length_stringToken_le rest
    · split
      · exact Nat.le_of_lt_succ (length_numberToken_lt (c :: rest) (List.cons_ne_nil _ _))
      · split
        · exact length_literalToken_le _ _ rest
        · exact Nat.zero_le _

/-- The tokens of a text. -/
def tokens : List Char → List Token
  | [] => []
  | c :: rest =>
    if isSpace c then tokens rest
    else (nextToken c rest).1 :: tokens (nextToken c rest).2
termination_by text => text.length
decreasing_by
  · exact Nat.lt_succ_self _
  · exact Nat.lt_succ_of_le (length_nextToken_le c rest)

end StringReport.Json
