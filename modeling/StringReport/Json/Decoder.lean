import StringReport.Json.Node

/-!
# Reading values off an outline

A decoder takes one node and gives its value or the first fault in it. Decoders for single
values and for lists, tables and variants stand here; records are composed from them.
-/
namespace StringReport.Json

/-- The reading of a node as a value. -/
abbrev Decoder (α : Type) := Node → Except Fault α

/-! ## Passing over a value -/

def badLiteralFault (cut : Bool) : Fault := if cut then .endInValue else .literalExpected

/-- The fault of a list that is passed over. -/
def ListEnd.skip : ListEnd → Except Fault Unit
  | closed => .ok ()
  | cut => .error .endInList
  | commaMissing => .error .commaOrBracketExpected
  | danglingComma => .error .valueExpected

/-- The fault of an object that is passed over. -/
def ObjectEnd.skip : ObjectEnd → Except Fault Unit
  | closed => .ok ()
  | cut | cutAfterComma => .error .endInObject
  | commaMissing => .error .commaOrBraceExpected
  | danglingComma | noKey => .error .keyExpected
  | colonMissing key => do key.skip; .error .colonExpected
  | cutAfterKey key => do key.skip; .error .endInObject

mutual

/-- Pass over a value that has to be well formed; numbers of any size will do, and escapes
need not make sense together. -/
def Node.skip : Node → Except Fault Unit
  | .missing => .error .endInValue
  | .stray => .error .valueExpected
  | .literal _ | .number _ => .ok ()
  | .badLiteral cut => .error (badLiteralFault cut)
  | .badNumber _ => .error .badNumber
  | .string s => s.skip
  | .list items ending => do skipItems items; ending.skip
  | .object members ending => do skipMembers members; ending.skip

def skipItems : List Node → Except Fault Unit
  | [] => .ok ()
  | item :: items => do item.skip; skipItems items

def skipMembers : List (RawString × Node) → Except Fault Unit
  | [] => .ok ()
  | (key, value) :: members => do key.skip; value.skip; skipMembers members

end

/-! ## Values of the wrong kind -/

/-- What a node is, for the report that it is not what was asked for. -/
def Node.found : Node → Except Fault Found
  | .missing => .error .endInValue
  | .stray => .error .valueExpected
  | .literal .null => .ok .null
  | .literal (.boolean value) => .ok (.boolean value)
  | .badLiteral cut => .error (badLiteralFault cut)
  | .number n =>
    match n.value with
    | .integer i => .ok (.integer i)
    | .real x => .ok (.real x)
    | .outOfRange => .error .numberTooLarge
  | .badNumber cut => .error (if cut then .endInValue else .badNumber)
  | .string s => s.decode.map .text
  | .list .. => .ok .list
  | .object .. => .ok .table

/-- The fault of a node that is not of the shape asked for. -/
def Node.mismatch (node : Node) (expected : Shape) : Fault :=
  match node.found with
  | .ok found => .wrongShape found expected
  | .error fault => fault

/-! ## Single values -/

/-- A whole number below a limit. -/
def wholeBelow (limit : Nat) (shape : Shape) : Decoder Nat
  | .number n =>
    match n.value with
    | .integer i => if 0 ≤ i ∧ i < limit then .ok i.toNat else .error (.outOfRange i shape)
    | .real x => .error (.wrongShape (.real x) shape)
    | .outOfRange => .error .numberTooLarge
  | node => .error (node.mismatch shape)

def word64 : Decoder UInt64 := fun node =>
  (wholeBelow (2 ^ 64) .word64 node).map Nat.toUInt64

def word32 : Decoder UInt32 := fun node =>
  (wholeBelow (2 ^ 32) .word32 node).map Nat.toUInt32

/-- The binary number nearest to an integer. -/
def realOfInt (i : Int) : Binary64 :=
  if i < 0 then (Binary64.ofNat i.natAbs).negate else .ofNat i.natAbs

def real : Decoder Binary64
  | .number n =>
    match n.value with
    | .integer i => .ok (realOfInt i)
    | .real x => .ok x
    | .outOfRange => .error .numberTooLarge
  | node => .error (node.mismatch .real)

def flag : Decoder Bool
  | .literal (.boolean value) => .ok value
  | node => .error (node.mismatch .flag)

def text : Decoder String
  | .string s => s.decode
  | node => .error (node.mismatch .text)

def unit : Decoder Unit
  | .literal .null => .ok ()
  | node => .error (node.mismatch .unit)

/-- A value that may be null. -/
def optional {α : Type} (value : Decoder α) : Decoder (Option α)
  | .literal .null => .ok none
  | node => (value node).map some

/-! ## Lists -/

def ListEnd.check : ListEnd → Except Fault Unit
  | closed => .ok ()
  | cut => .error .endInList
  | commaMissing => .error .commaOrBracketExpected
  | danglingComma => .error .danglingComma

def list {α : Type} (item : Decoder α) : Decoder (List α)
  | .list items ending => do
    let values ← items.mapM item
    ending.check
    .ok values
  | node => .error (node.mismatch .list)

/-! ## Objects -/

/-- The fault of an object that is read; the check of a last key comes before that of its
colon. -/
def ObjectEnd.check (key : RawString → Except Fault Unit) : ObjectEnd → Except Fault Unit
  | closed => .ok ()
  | cut => .error .endInObject
  | cutAfterComma => .error .endInValue
  | commaMissing => .error .commaOrBraceExpected
  | danglingComma => .error .danglingComma
  | noKey => .error .keyExpected
  | colonMissing last => do key last; .error .colonExpected
  | cutAfterKey last => do key last; .error .endInObject

/-- A key that is a whole number of 64 bits between its quotes, digits as written. -/
def numericKey (key : RawString) : Except Fault UInt64 :=
  let text := key.body ++ if key.closed then ['"'] else []
  match text with
  | [] => .error .numericKeyExpected
  | c :: _ =>
    if c = '-' ∨ c.isDigit then
      match Numeral.scan text with
      | .cut => .error .endInValue
      | .malformed => .error .badNumber
      | .complete n rest => do
        let value ← word64 (.number n)
        if rest.head? = some '"' then .ok value else .error .quoteExpected
    else .error .numericKeyExpected

/-- The members of a table with numeric keys, put one by one into what has been built. -/
def table {α β : Type} (value : Decoder α) (empty : β) (put : β → UInt64 → α → β) : Decoder β
  | .object members ending => do
    let built ← members.foldlM (fun built (key, node) => do
      let address ← numericKey key
      let v ← value node
      .ok (put built address v)) empty
    ending.check fun key => do let _ ← numericKey key; .ok ()
    .ok built
  | node => .error (node.mismatch .table)

/-! ## Variants -/

/-- The variant of a name. -/
def variantNamed {α : Type} (known : List (String × α)) (s : RawString) : Except Fault α := do
  let name ← s.decode
  match known.find? (·.1 = name) with
  | some (_, value) => .ok value
  | none => .error (.unknownVariant name (known.map (·.1)))

/-- One of several names, written as a string, or as an object whose only member has the
name for its key and null for its value. -/
def variant {α : Type} (known : List (String × α)) : Decoder α
  | .string s => variantNamed known s
  | .object ((key, node) :: rest) ending => do
    let value ← variantNamed known key
    unit node
    match rest, ending with
    | [], .closed => .ok value
    | [], .cut => .error .endInObject
    | _, _ => .error .valueExpected
  | .object [] .cut => .error .endInObject
  | .object [] .noKey => .error .keyExpected
  | .object [] (.colonMissing key) => do
    let _ ← variantNamed known key
    .error .colonExpected
  | .object [] (.cutAfterKey key) => do
    let _ ← variantNamed known key
    .error .endInObject
  | .missing => .error .endInValue
  | _ => .error .valueExpected

end StringReport.Json
