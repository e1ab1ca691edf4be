import StringReport.Number.Decimal
import StringReport.Text.Quoted

/-!
# Why a JSON text is refused

A fault is one of three kinds: the text ends too early, it is not JSON, or its values are
not what the reader asks for. The first fault met from left to right is the one reported.
-/
namespace StringReport.Json

/-- What a reader can ask for. -/
inductive Shape where
  | record (title : String)
  | text
  | flag
  | word64
  | word32
  | real
  | list
  | table
  | timestamp
  | unit
  deriving DecidableEq, Repr

def Shape.label : Shape → String
  | record title => "struct " ++ title
  | text => "a string"
  | flag => "a boolean"
  | word64 => "u64"
  | word32 => "u32"
  | real => "f64"
  | list => "a sequence"
  | table => "a map"
  | timestamp => "an RFC3339-formatted `OffsetDateTime`"
  | unit => "unit"

/-- What was found in its place. -/
inductive Found where
  | null
  | boolean (value : Bool)
  | integer (i : Int)
  | real (x : Binary64)
  | text (s : String)
  | list
  | table
  deriving DecidableEq, Repr

def Found.label : Found → String
  | null => "null"
  | boolean value => "boolean `" ++ (if value then "true" else "false") ++ "`"
  | integer i => "integer `" ++ toString i ++ "`"
  | real x => "floating point `" ++ x.text ++ "`"
  | text s => "string " ++ quoted s
  | list => "sequence"
  | table => "map"

inductive Fault where
  -- the text ends too early
  | endInValue
  | endInObject
  | endInList
  | endInString
  -- the text is not JSON
  | valueExpected
  | literalExpected
  | colonExpected
  | commaOrBraceExpected
  | commaOrBracketExpected
  | danglingComma
  | trailing
  | keyExpected
  | badNumber
  | numberTooLarge
  | badEscape
  | controlCharacter
  | loneSurrogate
  | unpairedSurrogate
  | numericKeyExpected
  | quoteExpected
  -- the values are not what the reader asks for
  | missingField (name : String)
  | duplicateField (name : String)
  | wrongShape (found : Found) (expected : Shape)
  | outOfRange (i : Int) (expected : Shape)
  | wrongLength (length : Nat) (title : String) (count : Nat)
  | unknownVariant (name : String) (known : List String)
  | refused (reason : String)
  deriving DecidableEq, Repr

/-- The three kinds of faults. -/
inductive Fault.Kind where
  | truncated
  | malformed
  | mismatched
  deriving DecidableEq, Repr

namespace Fault

def kind : Fault → Kind
  | endInValue | endInObject | endInList | endInString => .truncated
  | missingField _ | duplicateField _ | wrongShape .. | outOfRange .. | wrongLength ..
  | unknownVariant .. | refused _ => .mismatched
  | _ => .malformed

/-- The names a variant could have had. -/
def alternatives : List String → String
  | [a, b] => "`" ++ a ++ "` or `" ++ b ++ "`"
  | names => "one of " ++ ", ".intercalate (names.map fun name => "`" ++ name ++ "`")

def message : Fault → String
  | endInValue => "EOF while parsing a value"
  | endInObject => "EOF while parsing an object"
  | endInList => "EOF while parsing a list"
  | endInString => "EOF while parsing a string"
  | valueExpected => "expected value"
  | literalExpected => "expected ident"
  | colonExpected => "expected `:`"
  | commaOrBraceExpected => "expected `,` or `\x7d`"
  | commaOrBracketExpected => "expected `,` or `]`"
  | danglingComma => "trailing comma"
  | trailing => "trailing characters"
  | keyExpected => "key must be a string"
  | badNumber => "invalid number"
  | numberTooLarge => "number out of range"
  | badEscape => "invalid escape"
  | controlCharacter => "control character (\\u0000-\\u001F) found while parsing a string"
  | loneSurrogate => "lone leading surrogate in hex escape"
  | unpairedSurrogate => "unexpected end of hex escape"
  | numericKeyExpected => "invalid value: expected key to be a number in quotes"
  | quoteExpected => "expected `\"`"
  | missingField name => "missing field `" ++ name ++ "`"
  | duplicateField name => "duplicate field `" ++ name ++ "`"
  | wrongShape found expected => "invalid type: " ++ found.label ++ ", expected " ++ expected.label
  | outOfRange i expected =>
    "invalid value: " ++ (Found.integer i).label ++ ", expected " ++ expected.label
  | wrongLength length title count =>
    "invalid length " ++ toString length ++ ", expected struct " ++ title ++ " with " ++
      toString count ++ " elements"
  | unknownVariant name known =>
    "unknown variant `" ++ name ++ "`, expected " ++ alternatives known
  | refused reason => reason

end Fault
end StringReport.Json
