import StringReport.Calendar.Timestamp
import StringReport.Document.ScoreTable

/-!
# Results of a string extraction

A document tells about one analysed file: how the run went, which techniques were used, and
the strings that each of them found.
-/
namespace StringReport

/-- When the run started, and the seconds that its phases took. -/
structure Timings where
  startDate : Timestamp := .epoch
  total : Binary64 := .zero
  /-- The time that emulated execution took; zero says that it did not run. -/
  emulation : Binary64 := .zero
  findFeatures : Binary64 := .zero
  staticStrings : Binary64 := .zero
  languageStrings : Binary64 := .zero
  stackStrings : Binary64 := .zero
  decodedStrings : Binary64 := .zero
  tightStrings : Binary64 := .zero
  deriving DecidableEq, Repr, Inhabited

structure Metadata where
  filePath : String := ""
  version : String := ""
  imageBase : UInt64 := 0
  minLength : UInt32 := 4
  timings : Timings := {}
  /-- The tag of the identified language, empty if none was looked for. -/
  language : String := ""
  languageVersion : String := ""
  /-- A language that was forced instead. -/
  languageSelected : String := ""
  deriving DecidableEq, Repr, Inhabited

/-- What was counted among the functions of the file. -/
structure FunctionCounts where
  discovered : UInt64 := 0
  library : UInt64 := 0
  analyzedForStack : UInt64 := 0
  analyzedForTight : UInt64 := 0
  analyzedForDecoded : UInt64 := 0
  candidates : ScoreTable := .empty
  deriving DecidableEq, Repr, Inhabited

/-- Which techniques were used, and what they met. -/
structure Analysis where
  staticEnabled : Bool := true
  stackEnabled : Bool := true
  tightEnabled : Bool := true
  decodedEnabled : Bool := true
  languageEnabled : Bool := true
  functions : FunctionCounts := {}
  deriving DecidableEq, Repr, Inhabited

/-- How the bytes of a string in the file stand for characters. -/
inductive Encoding where
  | ascii
  | utf16
  deriving DecidableEq, Repr, Inhabited

def Encoding.label : Encoding → String
  | ascii => "ASCII"
  | utf16 => "UTF-16LE"

/-- A string that stands in the file as it is. -/
structure StaticString where
  string : String
  offset : UInt64
  encoding : Encoding
  deriving DecidableEq, Repr, Inhabited

/-- A string from the string table of a language runtime. -/
structure LanguageString where
  string : String
  offset : UInt64
  deriving DecidableEq, Repr, Inhabited

/-- A string that a function wrote to its frame. -/
structure FrameString where
  function : UInt64
  string : String
  programCounter : UInt64
  stackPointer : UInt64 := 0
  initialStackPointer : UInt64 := 0
  offset : UInt64 := 0
  frameOffset : UInt64
  deriving DecidableEq, Repr, Inhabited

/-- Where a decoded string was found. -/
inductive Region where
  | stack
  | global
  | heap
  deriving DecidableEq, Repr, Inhabited

def Region.label : Region → String
  | stack => "STACK"
  | global => "GLOBAL"
  | heap => "HEAP"

/-- A string that a decoding routine produced. -/
structure DecodedString where
  address : Option UInt64 := none
  region : Region
  string : String
  decodedAt : UInt64
  routine : UInt64
  deriving DecidableEq, Repr, Inhabited

/-- The strings found, by technique. -/
structure Findings where
  stack : List FrameString := []
  tight : List FrameString := []
  decoded : List DecodedString := []
  static : List StaticString := []
  language : List LanguageString := []
  /-- Strings of the language runtime that its own technique overlooked. -/
  languageMissed : List LanguageString := []
  deriving DecidableEq, Repr, Inhabited

/-- The results for one file. -/
structure Document where
  metadata : Metadata := {}
  analysis : Analysis := {}
  findings : Findings := {}
  deriving DecidableEq, Repr, Inhabited

/-- A language whose runtime strings have a section of their own. -/
inductive Language where
  | go
  | rust
  deriving DecidableEq, Repr, Inhabited

namespace Language

/-- The language that a tag names. -/
def ofTag? (tag : String) : Option Language :=
  if tag = "go" then some go else if tag = "rust" then some rust else none

def label : Language → String
  | go => "GO"
  | rust => "RUST"

end Language
end StringReport
