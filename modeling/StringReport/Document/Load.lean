import StringReport.Document.Reader

/-!
# Loading a document from a file

A file is read whole, has to be UTF-8, and then has to hold one document. What goes wrong is
reported as a chain of messages, from the attempt down to its cause.
-/
namespace StringReport

/-- Why a file could not be read or written. -/
inductive FileFault where
  | notFound
  | notDirectory
  | isDirectory
  | nameTooLong
  | noSpace
  | other (reason : String)
  deriving DecidableEq, Repr

def FileFault.message : FileFault → String
  | notFound => "No such file or directory (os error 2)"
  | notDirectory => "Not a directory (os error 20)"
  | isDirectory => "Is a directory (os error 21)"
  | nameTooLong => "File name too long (os error 36)"
  | noSpace => "No space left on device (os error 28)"
  | other reason => reason

/-- Why a document could not be loaded. -/
inductive LoadFault where
  | unreadable (path : String) (fault : FileFault)
  | notText (path : String)
  | invalid (path : String) (fault : Json.Fault)
  deriving DecidableEq, Repr

namespace LoadFault

/-- The messages for a text that holds no document. -/
def parseChain (fault : Json.Fault) : List String :=
  ["failed to parse results JSON", fault.message]

/-- What was attempted when a document was loaded. -/
def headline : LoadFault → String
  | unreadable path _ | notText path => "failed to read results: " ++ path
  | invalid path _ => "invalid results document: " ++ path

/-- The messages, the attempt first and the cause last. -/
def chain : LoadFault → List String
  | unreadable path fault => [headline (unreadable path fault), fault.message]
  | notText path => [headline (notText path), "stream did not contain valid UTF-8"]
  | invalid path fault => headline (invalid path fault) :: parseChain fault

/-- The fault of the text, if the file could be read. -/
def jsonFault? : LoadFault → Option Json.Fault
  | invalid _ fault => some fault
  | _ => none

end LoadFault

/-- Load a document from what reading the file at a path gave. -/
def Document.load (path : String) (contents : Except FileFault ByteArray) :
    Except LoadFault Document :=
  match contents with
  | .error fault => .error (.unreadable path fault)
  | .ok bytes =>
    match String.fromUTF8? bytes with
    | none => .error (.notText path)
    | some text =>
      match ofText text with
      | .error fault => .error (.invalid path fault)
      | .ok doc => .ok doc

end StringReport
