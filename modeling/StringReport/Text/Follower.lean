import StringReport.Character.Emoji
import StringReport.Character.Letter
import StringReport.Character.Selector

/-!
# Columns of characters in a row

How many columns a character adds to a text can depend on what comes right after it: an emoji
before a joiner and another emoji adds none, for the two are drawn as one picture. So a text
is measured from its end, and what has been read last is kept as a follower, which says all
that matters about it to the character before.

Pictures run together by joiners, modifiers, selectors, flag letters by twos, and the tags
of a flag. In some scripts letters run together, with or without a joiner. A selector widens
a quotation mark. A carriage return before a line feed counts for nothing.
-/
namespace StringReport

/-- A letter that can be written as one with what comes before it. -/
inductive LastLetter where
  | lamed
  | ya
  /-- A ya joined to the vowel before it. -/
  | yaAfterVowel
  | tifinagh
  /-- A Tifinagh consonant after its joiner. -/
  | tifinaghAfterJoiner
  | secondTone
  | orkhonI
  | subscript
  deriving DecidableEq, Repr

/-- How many flag letters are joined to a picture after them. -/
inductive JoinedFlag where
  | first
  | even
  | odd
  deriving DecidableEq, Repr

/-- What the text after a character begins with. -/
inductive Beginning where
  | other
  | lineFeed
  | emoji
  | modifier
  /-- Flag letters, one or several. -/
  | flag (several : Bool)
  /-- A joiner before a picture. -/
  | joined
  /-- The mark for a key, joined to a picture. -/
  | joinedKey
  | joinedFlag (letters : JoinedFlag)
  /-- Tags up to their end, joined to a picture: so many digits after so many letters. -/
  | tags (letters digits : Nat)
  | alef
  /-- A letter, with a joiner before it or not. -/
  | letter (last : LastLetter) (joiner : Bool)
  /-- The Kirat Rai vowel of which two or three make others. -/
  | kiratE
  /-- Two of them. -/
  | kiratAi
  deriving DecidableEq, Repr

/-- The ways in which a character can be asked to be drawn. -/
inductive Selector where
  | picture
  | text
  /-- As a quotation mark of two columns. -/
  | wide
  deriving DecidableEq, Repr

/-- What comes right after a character, as far as its columns depend on it. -/
structure Follower where
  beginning : Beginning
  selector : Option Selector := none
  deriving DecidableEq, Repr

namespace Beginning

/-- What a character is to the one before it, when it stands alone. -/
def ofChar (c : Char) : Beginning :=
  if Character.isEmoji c then .emoji
  else if Character.isModifier c then .modifier
  else if Character.isFlagLetter c then .flag false
  else if Character.isAlef c then .alef
  else if c = '\u05dc' then .letter .lamed false
  else if c = '\u1a10' then .letter .ya false
  else if Character.isTifinagh c then .letter .tifinagh false
  else if Character.isSecondTone c then .letter .secondTone false
  else if c.toNat = 0x10c03 then .letter .orkhonI false
  else if Character.isSubscript c then .letter .subscript false
  else if c.toNat = 0x16d67 then .kiratE
  else if c.toNat = 0x16d68 then .kiratAi
  else .other

/-- Whether a selector for pictures leaves the beginning behind it as it was. -/
def keptByPicture : Beginning → Bool
  | joined | joinedKey | alef | letter .. => true
  | _ => false

/-- Whether another selector leaves the beginning behind it as it was, and whether one
without effect does. -/
def keptByOther : Beginning → Bool
  | alef | letter .. => true
  | _ => false

/-- Whether a picture before it belongs to a picture already counted. -/
def isJoined : Beginning → Bool
  | joined | joinedKey => true
  | _ => false

/-- The columns that a character adds by being joined to the letter after it, and what
comes of it. -/
def joinLetter (c : Char) : LastLetter → Bool → Option (Int × Beginning)
  | .lamed, true => if c = '\u05d0' then some (0, other) else none
  | .ya, true => if c = '\u1a17' then some (0, letter .yaAfterVowel true) else none
  | .yaAfterVowel, _ => if c = '\u1a15' then some (0, other) else none
  | .tifinagh, joiner =>
    if Character.isTifinaghJoiner c then some (1, letter .tifinaghAfterJoiner true)
    else if joiner ∧ Character.isTifinagh c then some (0, other)
    else none
  | .tifinaghAfterJoiner, _ => if Character.isTifinagh c then some (-1, other) else none
  | .secondTone, _ => if Character.isFirstTone c then some (0, other) else none
  | .orkhonI, true => if c.toNat = 0x10c32 then some (0, other) else none
  | .subscript, _ => if Character.isCoeng c then some (-1, other) else none
  | _, false => none

/-- The same for a character before tags. -/
def joinTags (c : Char) (letters digits : Nat) : Option (Int × Beginning) :=
  if Character.isTagLetter c ∧ digits = 0 ∧ letters < 6 then some (0, tags (letters + 1) 0)
  else if Character.isTagDigit c ∧ (if digits = 0 then letters < 5 else digits < 3) then
    some (0, tags letters (digits + 1))
  else if Character.isTaggedFlag c ∧ (if digits = 0 then 3 ≤ letters else digits = 3) then
    some (0, emoji)
  else none

/-- The columns that a character adds by being joined to what comes after it, and what
comes of it, if it is joined to it. -/
def join (c : Char) : Beginning → Option (Int × Beginning)
  | alef =>
    if Character.isLam c then some (0, other)
    else if Character.joinsLam c then some (0, alef)
    else none
  | letter last joiner =>
    if c = Character.joiner then some (0, letter last true)
    else if Character.isSeam c then some (0, letter last joiner)
    else joinLetter c last joiner
  | emoji => if c = Character.joiner then some (0, joined) else none
  | modifier =>
    if Character.isModifiable c then some (0, emoji)
    else if c = Character.joiner then some (0, joined)
    else none
  | flag several =>
    if Character.isFlagLetter c then some (1, flag true)
    else if c = Character.joiner ∧ several then some (0, joined)
    else none
  | joined =>
    if c = Character.keyMark then some (0, joinedKey)
    else if Character.isFlagLetter c then some (1, joinedFlag .first)
    else if Character.isModifier c then some (0, modifier)
    else if Character.isTagEnd c then some (0, tags 0 0)
    else if Character.isEmoji c then some (0, emoji)
    else none
  | joinedFlag letters =>
    if Character.isFlagLetter c then
      some (if letters = .even then (3, joinedFlag .odd) else (-1, joinedFlag .even))
    else if c = Character.joiner ∧ letters ≠ .first then some (0, joined)
    else none
  | tags letters digits => joinTags c letters digits
  | kiratE =>
    if c.toNat = 0x16d63 ∨ c.toNat = 0x16d69 then some (0, other)
    else if c.toNat = 0x16d67 then some (0, kiratAi)
    else if c.toNat = 0x16d68 then some (1, kiratE)
    else none
  | kiratAi => if c.toNat = 0x16d63 then some (0, other) else none
  | other | lineFeed | joinedKey => none

end Beginning

namespace Follower

/-- The end of a text. -/
def nothing : Follower := ⟨.other, none⟩

/-- A selector before what comes after it. -/
def select (next : Follower) (selector : Selector) : Follower :=
  let kept := match selector with
    | .picture => next.beginning.keptByPicture
    | .text | .wide => next.beginning.keptByOther
  ⟨if kept then next.beginning else .other, some selector⟩

/-- What a selector leaves behind that the character before it does not take. -/
def unselect (next : Follower) : Follower :=
  match next.selector with
  | none => next
  | some _ => ⟨if next.beginning.keptByOther then next.beginning else .other, none⟩

/-- The columns that a character adds to the text after it, and what the two are to the
character before. -/
def before (c : Char) (next : Follower) : Int × Follower :=
  if next.selector = some .picture ∧ Character.takesPicture c then
    (if next.beginning.isJoined then 0 else 2, ⟨.emoji, none⟩)
  else if c.toNat ≤ 0xa0 then
    if c = '\n' then (1, ⟨.lineFeed, none⟩)
    else if c = '\r' ∧ next.beginning = .lineFeed then (0, nothing)
    else (1, nothing)
  else if c = Character.pictureSelector then (0, next.select .picture)
  else if c = Character.textSelector then (0, next.select .text)
  else if c = Character.wideSelector then (0, next.select .wide)
  else if next.selector = some .text ∧ Character.takesText c then (1, nothing)
  else if next.selector = some .wide ∧ Character.takesWide c then (2, nothing)
  else
    match next.unselect.beginning.join c with
    | some (columns, beginning) => (columns, ⟨beginning, none⟩)
    | none => (Character.columns c, ⟨.ofChar c, none⟩)

end Follower

/-- The columns of a text without control sequences, and what the text is to a character
before it. -/
def runFrom (text : List Char) : Int × Follower :=
  text.foldr (fun c (columns, next) =>
    let (added, follower) := Follower.before c next
    (columns + added, follower)) (0, .nothing)

/-- The columns of a text without control sequences. -/
def textWidth (text : List Char) : Nat := (runFrom text).1.toNat

@[simp] theorem textWidth_nil : textWidth [] = 0 := rfl

/-- The characters between the space and the last of ASCII are printed one by one. -/
theorem runFrom_of_printable {text : List Char}
    (h : ∀ c ∈ text, 0x20 ≤ c.toNat ∧ c.toNat < 0x7f) :
    runFrom text = ((text.length : Int), Follower.nothing) := by
  induction text with
  | nil => rfl
  | cons c rest ih =>
    have hc := h c (by simp)
    have ih := ih fun d hd => h d (by simp [hd])
    have hn : c ≠ '\n' := by rintro rfl; revert hc; decide
    have hr : c ≠ '\r' := by rintro rfl; revert hc; decide
    have hle : c.toNat ≤ 0xa0 := by omega
    simp only [runFrom, List.foldr_cons] at ih ⊢
    rw [ih]
    simp [Follower.before, Follower.nothing, hn, hr, hle]

theorem textWidth_of_printable {text : List Char}
    (h : ∀ c ∈ text, 0x20 ≤ c.toNat ∧ c.toNat < 0x7f) : textWidth text = text.length := by
  simp [textWidth, runFrom_of_printable h]

end StringReport
