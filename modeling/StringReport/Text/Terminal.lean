import StringReport.Character.Control
import StringReport.Number.Natural

/-!
# A text as a terminal reads it

A terminal draws what it is sent, but for sequences that an escape character opens: these it
obeys. A sequence can be cut short by a cancelling character or by another escape character,
and one that is malformed is passed over without being obeyed.

The pieces of a text are what is drawn and what is obeyed, in order. What is drawn before a
sequence is known by its size alone: as many bytes as were drawn since the sequence before,
taken from where that one ended. So a control character carried out within a sequence makes
a piece of text of the sequence's own beginning.
-/
namespace StringReport.Terminal

/-- The parts of a control sequence or a device control, up to the character that ends it. -/
inductive Part where
  | start
  | parameters
  /-- After the parameters: marks that tell sequences of one final character apart. -/
  | marks
  deriving DecidableEq, Repr

/-- Where in a sequence a terminal is. -/
inductive State where
  /-- Between sequences. -/
  | ground
  | escape
  /-- After the escape character and marks. -/
  | escapeMarks
  /-- In a control sequence with so many marks and separators. -/
  | control (part : Part) (marks separators : Nat)
  /-- In a control sequence that will not be obeyed. -/
  | malformed
  | device (part : Part)
  /-- In a device control that is passed over. -/
  | malformedDevice
  | deviceData
  /-- In a command to the terminal's window. -/
  | command
  /-- In a message, which is passed over. -/
  | message
  deriving DecidableEq, Repr

/-- What a sequence is, as far as it matters to a text. -/
inductive Order where
  /-- A control sequence without marks that sets a style. -/
  | style
  | other
  deriving DecidableEq, Repr

/-- What comes of a character: it can be drawn or carried out by itself, and it can complete a
sequence. -/
structure Effect where
  drawn : Bool
  completes : Option Order
  deriving DecidableEq, Repr

namespace Effect

def none : Effect := ⟨false, .none⟩

def draw : Effect := ⟨true, .none⟩

def complete (order : Order) : Effect := ⟨false, some order⟩

end Effect

/-! ## One character -/

/-- The most marks of a control sequence that is obeyed. -/
def maxMarks : Nat := 1

/-- The most separators of parameters in a control sequence that is obeyed. -/
def maxSeparators : Nat := 31

def isCancel (c : Char) : Bool := c.toNat == 0x18 || c.toNat == 0x1a

def isBell (c : Char) : Bool := c.toNat == 0x07

/-- Whether a character is a mark between parameters and the final character. -/
def isMark (c : Char) : Bool := 0x20 ≤ c.toNat && c.toNat ≤ 0x2f

/-- Whether a character can be the last of a control sequence. -/
def isFinal (c : Char) : Bool := 0x40 ≤ c.toNat && c.toNat ≤ 0x7e

def isSeparator (c : Char) : Bool := c = ';' || c = ':'

/-- Whether the byte that ends device data is in the character, be it within. -/
def endsData (c : Char) : Bool := (String.utf8EncodeChar c).contains 0x9c

/-- The part of a sequence that a parameter, a separator or a mark leads to, if it may stand
there. Characters that are none of these mark a sequence as private, at its start only. -/
def Part.next? (part : Part) (c : Char) : Option Part :=
  if isMark c then some marks
  else if part = marks then none
  else if c.isDigit || isSeparator c || part = start then some parameters
  else none

/-- Read a character from the space to the tilde within a control sequence. -/
def stepControl (part : Part) (marks separators : Nat) (c : Char) : State × Effect :=
  if isFinal c then
    if marks ≤ maxMarks ∧ separators ≤ maxSeparators then
      (.ground, .complete (if c = 'm' ∧ marks = 0 then .style else .other))
    else (.ground, .none)
  else
    match part.next? c with
    | none => (.malformed, .none)
    | some next =>
      let marks := if c.isDigit || isSeparator c then marks else marks + 1
      let separators := if isSeparator c then separators + 1 else separators
      (.control next marks separators, .none)

/-- Read a character from the space to the tilde. -/
def stepPrinting (state : State) (c : Char) : State × Effect :=
  match state with
  | .ground => (.ground, .draw)
  | .escape =>
    if isMark c then (.escapeMarks, .none)
    else if c = '[' then (.control .start 0 0, .none)
    else if c = ']' then (.command, .none)
    else if c = 'P' then (.device .start, .none)
    else if c = 'X' ∨ c = '^' ∨ c = '_' then (.message, .none)
    else (.ground, .complete .other)
  | .escapeMarks => if isMark c then (.escapeMarks, .none) else (.ground, .complete .other)
  | .control part marks separators => stepControl part marks separators c
  | .malformed => (if isFinal c then .ground else .malformed, .none)
  | .device part =>
    if isFinal c then (.deviceData, .none)
    else (match part.next? c with | some next => .device next | none => .malformedDevice, .none)
  | .malformedDevice | .deviceData | .command | .message => (state, .none)

/-- Read a control character other than the escape character and the cancelling ones. -/
def stepControlCharacter (state : State) (c : Char) : State × Effect :=
  match state with
  | .ground | .escape | .escapeMarks | .control .. | .malformed => (state, .draw)
  | .command => if isBell c then (.ground, .complete .other) else (.command, .none)
  | .device _ | .malformedDevice | .deviceData | .message => (state, .none)

/-- Read a character. Only a command is complete when it is cut short. -/
def step (state : State) (c : Char) : State × Effect :=
  let cut : Option Order := if state = .command then some .other else none
  if c = Character.escape then (.escape, ⟨false, cut⟩)
  else if isCancel c then (.ground, ⟨true, cut⟩)
  else if state = .ground then (.ground, .draw)
  else if c.toNat < 0x20 then stepControlCharacter state c
  else if c.toNat < 0x7f then stepPrinting state c
  else (if state = .deviceData ∧ endsData c then .ground else state, .none)

/-! ## A text -/

/-- How far a terminal reads on before it has obeyed a sequence, and the bytes drawn on the
way. -/
inductive Pass where
  | toEnd (state : State) (drawn : Nat)
  /-- Up to the last of so many characters, which completes a sequence. -/
  | toSequence (order : Order) (state : State) (drawn length : Nat)
  deriving DecidableEq, Repr

/-- Read on, after `length` characters of which `drawn` bytes were drawn. -/
def pass (state : State) (drawn length : Nat) : List Char → Pass
  | [] => .toEnd state drawn
  | c :: rest =>
    let (next, effect) := step state c
    let drawn := if effect.drawn then drawn + c.utf8Size else drawn
    match effect.completes with
    | some order => .toSequence order next drawn (length + 1)
    | none => pass next drawn (length + 1) rest

/-- The characters that the first bytes of a text belong to, and those after them. -/
def splitBytes : Nat → List Char → List Char × List Char
  | 0, text => ([], text)
  | _, [] => ([], [])
  | bytes, c :: rest =>
    let (taken, left) := splitBytes (bytes - c.utf8Size) rest
    (c :: taken, left)

/-- A part of a text. -/
inductive Piece where
  | text (characters : List Char)
  | sequence (order : Order) (characters : List Char)
  deriving DecidableEq, Repr

/-- The pieces of a text that a terminal reads from some state on. Each pass takes off a
character at least, so as many passes as there are characters are enough. -/
def piecesFrom : (passes : Nat) → State → List Char → List Piece
  | 0, _, _ => []
  | passes + 1, state, text =>
    match pass state 0 0 text with
    | .toEnd next drawn =>
      let (shown, rest) := splitBytes drawn text
      if drawn = 0 then [] else .text shown :: piecesFrom passes next rest
    | .toSequence order next drawn length =>
      let (shown, sequence) := splitBytes drawn (text.take length)
      let later := .sequence order sequence :: piecesFrom passes next (text.drop length)
      if shown = [] then later else .text shown :: later

/-- The pieces of a text. What is left of a text after its last piece is not drawn, but a text
that is nothing but one unfinished sequence is drawn from after its escape character. -/
def pieces (text : List Char) : List Piece :=
  match piecesFrom text.length .ground text with
  | [] => if Character.escape ∈ text.tail then [] else [.text text.tail]
  | pieces => pieces

/-- The texts that a terminal draws. -/
def texts (text : List Char) : List (List Char) :=
  (pieces text).filterMap fun
    | .text characters => some characters
    | .sequence .. => none

/-- The sequences that set a style. -/
def styleSequences (text : List Char) : List (List Char) :=
  (pieces text).filterMap fun
    | .sequence .style characters => some characters
    | _ => none

/-! ## Texts without sequences -/

/-- The size of a text in bytes. -/
def size (text : List Char) : Nat := (text.map Char.utf8Size).sum

theorem step_ground {c : Char} (h : c ≠ Character.escape) : step .ground c = (.ground, .draw) := by
  by_cases hc : isCancel c <;> simp [step, h, hc, Effect.draw]

theorem pass_of_forall_ne {text : List Char} (h : ∀ c ∈ text, c ≠ Character.escape)
    (drawn length : Nat) : pass .ground drawn length text = .toEnd .ground (drawn + size text) := by
  induction text generalizing drawn length with
  | nil => simp [pass, size]
  | cons c rest ih =>
    rw [pass, step_ground (h c (by simp))]
    simp only [Effect.draw, if_true, ih (fun d hd => h d (by simp [hd]))]
    simp [size, Nat.add_assoc]

theorem splitBytes_size (text : List Char) : splitBytes (size text) text = (text, []) := by
  induction text with
  | nil => rfl
  | cons c rest ih =>
    have hc : size (c :: rest) = c.utf8Size + size rest := by simp [size]
    have pos := c.utf8Size_pos
    obtain ⟨n, hn⟩ : ∃ n, size (c :: rest) = n + 1 := ⟨size (c :: rest) - 1, by omega⟩
    rw [hn, splitBytes, ← hn, hc, Nat.add_sub_cancel_left, ih]
    simp

/-- A text without an escape character is drawn as one piece. -/
theorem pieces_of_forall_ne {text : List Char} (h : ∀ c ∈ text, c ≠ Character.escape) :
    pieces text = [.text text] := by
  cases text with
  | nil => rfl
  | cons c rest =>
    have pos : size (c :: rest) ≠ 0 := by
      have := c.utf8Size_pos
      simp only [size, List.map_cons, List.sum_cons]
      omega
    have rest_eq (n : Nat) : piecesFrom n .ground [] = [] := by cases n <;> rfl
    simp [pieces, piecesFrom, pass_of_forall_ne h, splitBytes_size, pos, rest_eq]

end StringReport.Terminal
