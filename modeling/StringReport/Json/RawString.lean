import StringReport.Json.Token
import StringReport.Json.Fault

/-!
# The characters of a JSON string

A string that is read has its escapes replaced by the characters they stand for, and its
surrogate escapes have to come in pairs. A string that is passed over only has to be well
formed.
-/
namespace StringReport

/-- If something was made in two steps that can fail, neither has failed. -/
theorem exists_of_bind_eq_ok {ε α β : Type} {x : Except ε α} {f : α → Except ε β} {b : β}
    (h : x >>= f = .ok b) : ∃ a, x = .ok a ∧ f a = .ok b := by
  cases x with
  | error e => cases h
  | ok a => exact ⟨a, rfl, h⟩

theorem bind_eq_ok_unit {ε β : Type} {x : Except ε Unit} {y : Except ε β} {b : β} :
    (do x; y) = .ok b ↔ x = .ok () ∧ y = .ok b := by
  cases x with
  | error fault => exact ⟨nofun, nofun⟩
  | ok u => exact ⟨fun h => ⟨rfl, h⟩, fun h => h.2⟩

theorem map_eq_ok {ε α β : Type} {x : Except ε α} {f : α → β} {b : β} :
    x.map f = .ok b ↔ ∃ a, x = .ok a ∧ f a = b := by
  cases x with
  | error e => simp [Except.map]
  | ok a => simp [Except.map]

namespace Json

/-- The characters that a backslash and one letter stand for. -/
def escaped? : Char → Option Char
  | '"' => some '"'
  | '\\' => some '\\'
  | '/' => some '/'
  | 'b' => some '\x08'
  | 'f' => some '\x0c'
  | 'n' => some '\n'
  | 'r' => some '\r'
  | 't' => some '\t'
  | _ => none

/-- The number that the next four characters write, for a text that `beyond` more bytes
follow. -/
def fourDigits (beyond : Nat) (text : List Char) : Except Fault (Nat × List Char) :=
  if leadingBytes text + beyond < 4 then .error .endInString
  else
    match text with
    | a :: b :: c :: d :: rest =>
      match Hex.value? [a, b, c, d] with
      | some n => .ok (n, rest)
      | none => .error .badEscape
    | _ => .error .badEscape

/-- Whether a number is the first of a pair of surrogates. -/
def isHighSurrogate (n : Nat) : Bool := 0xd800 ≤ n && n ≤ 0xdbff

/-- Whether a number is the second of a pair of surrogates. -/
def isLowSurrogate (n : Nat) : Bool := 0xdc00 ≤ n && n ≤ 0xdfff

/-- The character of a pair of surrogates. -/
def joinSurrogates (high low : Nat) : Char :=
  Char.ofNat (0x10000 + (high - 0xd800) * 0x400 + (low - 0xdc00))

/-- What ends the characters of a string: its quote, or the end of the text. -/
inductive Closing where
  | quote
  | textEnd
  deriving DecidableEq, Repr

/-- The second surrogate, which has to follow the first at once. -/
def lowSurrogate (closing : Closing) (beyond : Nat) :
    List Char → Except Fault (Nat × List Char)
  | [] => .error (if closing = .quote then .unpairedSurrogate else .endInString)
  | '\\' :: [] => .error .endInString
  | '\\' :: 'u' :: rest => do
    let (n, rest) ← fourDigits beyond rest
    if isLowSurrogate n then .ok (n, rest) else .error .loneSurrogate
  | _ => .error .unpairedSurrogate

/-- The character of an escape with digits, which may take a second escape. -/
def numberedChar (closing : Closing) (beyond : Nat) (text : List Char) :
    Except Fault (Char × List Char) := do
  let (n, rest) ← fourDigits beyond text
  if isLowSurrogate n then .error .loneSurrogate
  else if isHighSurrogate n then
    let (low, rest) ← lowSurrogate closing beyond rest
    .ok (joinSurrogates n low, rest)
  else .ok (Char.ofNat n, rest)

theorem length_of_fourDigits {beyond : Nat} {text rest : List Char} {n : Nat}
    (h : fourDigits beyond text = .ok (n, rest)) : rest.length ≤ text.length := by
  unfold fourDigits at h
  split at h
  · cases h
  · split at h
    · split at h
      · cases h; simp only [List.length_cons]; omega
      · cases h
    · cases h

theorem length_of_lowSurrogate {closing : Closing} {beyond : Nat} {text rest : List Char}
    {n : Nat} (h : lowSurrogate closing beyond text = .ok (n, rest)) :
    rest.length ≤ text.length := by
  unfold lowSurrogate at h
  split at h
  · cases h
  · cases h
  · obtain ⟨⟨low, after⟩, hdigits, h⟩ := exists_of_bind_eq_ok h
    have hlength := length_of_fourDigits hdigits
    simp only at h
    split at h
    · cases h
      simp only [List.length_cons]
      omega
    · cases h
  · cases h

theorem length_of_numberedChar {closing : Closing} {beyond : Nat} {text rest : List Char}
    {c : Char} (h : numberedChar closing beyond text = .ok (c, rest)) :
    rest.length ≤ text.length := by
  obtain ⟨⟨n, after⟩, hdigits, h⟩ := exists_of_bind_eq_ok h
  have hlength := length_of_fourDigits hdigits
  simp only at h
  split at h
  · cases h
  · split at h
    · obtain ⟨⟨low, after'⟩, hlow, h⟩ := exists_of_bind_eq_ok h
      have hlength' := length_of_lowSurrogate hlow
      obtain ⟨-, rfl⟩ := Prod.mk.inj (Except.ok.inj h)
      exact Nat.le_trans hlength' hlength
    · obtain ⟨-, rfl⟩ := Prod.mk.inj (Except.ok.inj h)
      exact hlength

/-- The characters of a string, escapes replaced. -/
def unescape (closing : Closing) (beyond : Nat) : List Char → Except Fault (List Char)
  | [] => if closing = .quote then .ok [] else .error .endInString
  | '\\' :: [] => .error .endInString
  | '\\' :: c :: rest =>
    if c = 'u' then
      match h : numberedChar closing beyond rest with
      | .error fault => .error fault
      | .ok (c, after) =>
        have := length_of_numberedChar h
        (unescape closing beyond after).map (c :: ·)
    else
      match escaped? c with
      | some c => (unescape closing beyond rest).map (c :: ·)
      | none => .error .badEscape
  | c :: rest =>
    if c.toNat < 0x20 then .error .controlCharacter
    else (unescape closing beyond rest).map (c :: ·)
termination_by text => text.length
decreasing_by all_goals simp only [List.length_cons]; omega

/-- Whether the characters of a string are well formed, surrogates left alone. -/
def checkString (closing : Closing) (beyond : Nat) : List Char → Except Fault Unit
  | [] => if closing = .quote then .ok () else .error .endInString
  | '\\' :: [] => .error .endInString
  | '\\' :: c :: rest =>
    if c = 'u' then
      match h : fourDigits beyond rest with
      | .error fault => .error fault
      | .ok (_, after) =>
        have := length_of_fourDigits h
        checkString closing beyond after
    else if (escaped? c).isSome then checkString closing beyond rest
    else .error .badEscape
  | c :: rest =>
    if c.toNat < 0x20 then .error .controlCharacter else checkString closing beyond rest
termination_by text => text.length
decreasing_by all_goals simp only [List.length_cons]; omega

namespace RawString

def closing (s : RawString) : Closing := if s.closed then .quote else .textEnd

/-- The text of a string. -/
def decode (s : RawString) : Except Fault String :=
  (unescape s.closing s.beyond s.body).map String.ofList

/-- Pass over a string. -/
def skip (s : RawString) : Except Fault Unit := checkString s.closing s.beyond s.body

end RawString
end Json
end StringReport
