import StringReport.Document.Load
import StringReport.Text.Split

/-!
# The files around a run

A run reads and writes files by paths, and does not depend on how a path is followed.

Here is one way to follow it: part by part, from the working directory or, after a leading slash,
from the root. The directories around the working one and the usual ones below the root can be
walked through; the working directory itself has none below it. Where nothing is known to be,
nothing can be read, and a file can be made. A few names in the directory of devices are no files:
what is written to them is kept nowhere, and nothing can be read from them.
-/
namespace StringReport.CommandLine

/-- What writing comes to. -/
inductive Written (σ : Type) where
  /-- All has been written; some of it may show on the standard output. -/
  | done (stdout : String) (directory : σ)
  | failed (fault : FileFault) (directory : σ)

/-- Files by their paths. -/
class FileSystem (σ : Type) where
  read : σ → String → Except FileFault ByteArray
  write : σ → String → String → Written σ

/-- The directories that a path can lead through. -/
inductive Place where
  /-- The directory so many levels above the working directory: at 0, that one itself. -/
  | above (levels : Nat)
  | root
  /-- One of the directories that are always found below the root. -/
  | belowRoot (name : String)
  deriving DecidableEq, Repr

namespace Place

/-- The directory in which a run works. -/
def working : Place := .above 0

/-- The directory in which a directory stands; the root stands in itself. -/
def parent : Place → Place
  | above levels => above (levels + 1)
  | root | belowRoot _ => root

/-- The directories that are always found below the root. -/
def standardNames : List String :=
  ["bin", "dev", "etc", "home", "lib", "opt", "proc", "root", "sbin", "sys", "tmp", "usr", "var"]

/-- The directory of a name in a directory. -/
def child? (place : Place) (name : String) : Option Place :=
  if place = root ∧ name ∈ standardNames then some (belowRoot name) else none

end Place

/-- Where a file stands, or could. -/
structure FileName where
  place : Place
  name : String
  deriving DecidableEq, Repr

/-- The names behind which there is no file. -/
inductive Device where
  | null
  /-- A device that takes nothing. -/
  | full
  | stdout
  | stderr
  deriving DecidableEq, Repr

/-- The device of a name. -/
def FileName.device? (file : FileName) : Option Device :=
  if file.place ≠ .belowRoot "dev" then none
  else
    match file.name with
    | "null" => some .null
    | "full" => some .full
    | "stdout" => some .stdout
    | "stderr" => some .stderr
    | _ => none

/-- The files that are known, by name. -/
structure Directory where
  files : List (FileName × ByteArray)

namespace Directory

def empty : Directory := ⟨[]⟩

/-- The content of a file. -/
def get? (directory : Directory) (file : FileName) : Option ByteArray :=
  (directory.files.find? (·.1 = file)).map (·.2)

/-- The directory after a file has been given a new content. -/
def put (directory : Directory) (file : FileName) (content : ByteArray) : Directory :=
  ⟨(file, content) :: directory.files.filter (·.1 ≠ file)⟩

/-- The content of a name in the working directory. -/
def content? (directory : Directory) (name : String) : Option ByteArray :=
  directory.get? ⟨.working, name⟩

/-- Whether a name stands for something, a directory apart. -/
def holds (directory : Directory) (file : FileName) : Bool :=
  file.device?.isSome || (directory.get? file).isSome

/-! ## Following a path -/

/-- The names along a path between its slashes, in order. -/
def names (path : String) : List String :=
  ((partsOn '/' path.toList).filter fun part => !part.isEmpty).map String.ofList

/-- Whether a path asks for a directory by the slash at its end. -/
def endsInSlash (path : String) : Bool := path.toList.getLast? = some '/'

/-- What a path has led to. -/
inductive Target where
  | directory (place : Place)
  | file (file : FileName)
  deriving DecidableEq, Repr

/-- What the first name of a path is looked up in. -/
def start (path : String) : Target :=
  .directory (if path.toList.head? = some '/' then .root else .working)

/-- The longest name that can be looked up, in bytes. -/
def nameLimit : Nat := 255

/-- The longest path that can be followed, in bytes. -/
def pathLimit : Nat := 4095

/-- Go on to a name. -/
def step (directory : Directory) : Target → String → Except FileFault Target
  | .file file, _ => .error (if directory.holds file then .notDirectory else .notFound)
  | .directory place, name =>
    if name = "." then .ok (.directory place)
    else if name = ".." then .ok (.directory place.parent)
    else if nameLimit < name.utf8ByteSize then .error .nameTooLong
    else
      match place.child? name with
      | some child => .ok (.directory child)
      | none => .ok (.file ⟨place, name⟩)

/-- What a path leads to. -/
def follow (directory : Directory) (path : String) : Except FileFault Target :=
  if pathLimit < path.utf8ByteSize then .error .nameTooLong
  else (names path).foldlM directory.step (start path)

/-- Read a file. -/
def read (directory : Directory) (path : String) : Except FileFault ByteArray := do
  match ← directory.follow path with
  | .directory _ => .error .isDirectory
  | .file file =>
    if !directory.holds file then .error .notFound
    else if endsInSlash path then .error .notDirectory
    else .ok ((directory.get? file).getD .empty)

/-- The name under which a path lets something be written, whether a file was there or
not. -/
def writable (directory : Directory) (path : String) : Except FileFault FileName := do
  match ← directory.follow path with
  | .directory _ => .error .isDirectory
  | .file file => if endsInSlash path then .error .isDirectory else .ok file

/-- Write a payload under a name that can be written. -/
def writeTo (directory : Directory) (file : FileName) (payload : String) : Written Directory :=
  match file.device? with
  | none => .done "" (directory.put file payload.toUTF8)
  | some .stdout => .done payload directory
  | some .full => if payload = "" then .done "" directory else .failed .noSpace directory
  | some _ => .done "" directory

/-- Write a payload where a path leads. -/
def write (directory : Directory) (path payload : String) : Written Directory :=
  match directory.writable path with
  | .ok file => directory.writeTo file payload
  | .error fault => .failed fault directory

instance : FileSystem Directory where
  read := read
  write := write

@[simp] theorem get?_put_self (directory : Directory) (file : FileName) (content : ByteArray) :
    (directory.put file content).get? file = some content := by
  simp [put, get?]

end Directory
end StringReport.CommandLine
