import StringReport.Json.RawString

/-!
# The outline of a JSON text

The tokens of a text are arranged as a tree up to the place where they stop being JSON, and
the tree says what stopped it there. Nothing is judged yet: a reader walks the tree from
left to right and reports the first thing that it cannot take, be it a fault of the text or
a value of the wrong kind.

The tree is built by an automaton that takes one token at a time and keeps the containers
that are still open.
-/
namespace StringReport.Json

/-- How the items of a list end. -/
inductive ListEnd where
  | closed
  | cut
  | commaMissing
  | danglingComma
  deriving DecidableEq, Repr

/-- How the members of an object end. -/
inductive ObjectEnd where
  | closed
  | cut
  | cutAfterComma
  | commaMissing
  | danglingComma
  | noKey
  | colonMissing (key : RawString)
  | cutAfterKey (key : RawString)
  deriving DecidableEq, Repr

/-- A value, as far as the text goes. -/
inductive Node where
  /-- The text ended where a value was due. -/
  | missing
  /-- Something stood there that begins no value. -/
  | stray
  | literal (l : Literal)
  | badLiteral (cut : Bool)
  | number (n : Numeral)
  | badNumber (cut : Bool)
  | string (s : RawString)
  | list (items : List Node) (ending : ListEnd)
  | object (members : List (RawString × Node)) (ending : ObjectEnd)

instance : Inhabited Node := ⟨.missing⟩

/-- A container that is still open, its parts in reverse: a list that waits for its next
item, or an object that waits for the value of a key. -/
inductive Frame where
  | list (items : List Node)
  | object (members : List (RawString × Node)) (key : RawString)

/-- Close all open containers around a value after which nothing can be read. -/
def unwind : List Frame → Node → Node
  | [], node => node
  | .list items :: frames, node => unwind frames (.list (node :: items).reverse .cut)
  | .object members key :: frames, node =>
    unwind frames (.object ((key, node) :: members).reverse .cut)

/-- The outline of a text: its value, and whether anything follows it. -/
structure Outline where
  root : Node
  trailing : Bool

/-- What the text has to go on with. -/
inductive State where
  | value (frames : List Frame)
  | firstItem (frames : List Frame)
  | firstKey (frames : List Frame)
  | nextKey (frames : List Frame) (members : List (RawString × Node))
  | colon (frames : List Frame) (members : List (RawString × Node)) (key : RawString)
  | after (frames : List Frame) (node : Node)
  | stopped (outline : Outline)

/-- The state in which reading has come to an end inside the open containers. -/
def State.stop (frames : List Frame) (node : Node) : State := .stopped ⟨unwind frames node, false⟩

/-- Take a token where a value is due. -/
def takeValue (frames : List Frame) : Token → State
  | .string s => .after frames (.string s)
  | .number n => .after frames (.number n)
  | .literal l => .after frames (.literal l)
  | .openBracket => .firstItem frames
  | .openBrace => .firstKey frames
  | .badNumber cut => .stop frames (.badNumber cut)
  | .badLiteral cut => .stop frames (.badLiteral cut)
  | .closeBracket =>
    match frames with
    | .list items :: outer => .stop outer (.list items.reverse .danglingComma)
    | _ => .stop frames .stray
  | .closeBrace | .comma | .colon | .stray => .stop frames .stray

/-- Take a token where a key is due. -/
def takeKey (frames : List Frame) (members : List (RawString × Node)) : Token → State
  | .string key => .colon frames members key
  | _ => .stop frames (.object members.reverse .noKey)

/-- Take a token after a value. -/
def takeSeparator (frames : List Frame) (node : Node) (token : Token) : State :=
  match frames with
  | [] => .stopped ⟨node, true⟩
  | .list items :: outer =>
    match token with
    | .comma => .value (.list (node :: items) :: outer)
    | .closeBracket => .after outer (.list (node :: items).reverse .closed)
    | _ => .stop outer (.list (node :: items).reverse .commaMissing)
  | .object members key :: outer =>
    match token with
    | .comma => .nextKey outer ((key, node) :: members)
    | .closeBrace => .after outer (.object ((key, node) :: members).reverse .closed)
    | _ => .stop outer (.object ((key, node) :: members).reverse .commaMissing)

/-- Take one token. -/
def State.step : State → Token → State
  | .value frames, token => takeValue frames token
  | .firstItem frames, .closeBracket => .after frames (.list [] .closed)
  | .firstItem frames, token => takeValue (.list [] :: frames) token
  | .firstKey frames, .closeBrace => .after frames (.object [] .closed)
  | .firstKey frames, token => takeKey frames [] token
  | .nextKey frames members, .closeBrace =>
    .stop frames (.object members.reverse .danglingComma)
  | .nextKey frames members, token => takeKey frames members token
  | .colon frames members key, .colon => .value (.object members key :: frames)
  | .colon frames members key, _ => .stop frames (.object members.reverse (.colonMissing key))
  | .after frames node, token => takeSeparator frames node token
  | .stopped outline, _ => .stopped outline

/-- The outline when the text ends in a state. -/
def State.finish : State → Outline
  | .value frames => ⟨unwind frames .missing, false⟩
  | .firstItem frames => ⟨unwind frames (.list [] .cut), false⟩
  | .firstKey frames => ⟨unwind frames (.object [] .cut), false⟩
  | .nextKey frames members => ⟨unwind frames (.object members.reverse .cutAfterComma), false⟩
  | .colon frames members key =>
    ⟨unwind frames (.object members.reverse (.cutAfterKey key)), false⟩
  | .after frames node => ⟨unwind frames node, false⟩
  | .stopped outline => outline

/-- The outline of a text. -/
def outline (text : List Char) : Outline :=
  ((tokens text).foldl State.step (.value [])).finish

end StringReport.Json
