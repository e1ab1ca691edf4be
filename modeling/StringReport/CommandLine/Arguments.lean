/-!
# Command line arguments

Arguments are taken from left to right. An option is written once at most; its value is
the next argument, or follows an equals sign. After a double dash every argument is a
path. The first argument that cannot be taken, or that asks for something else than a
report, decides.
-/
namespace StringReport.CommandLine

inductive Format where
  | text
  | json
  deriving DecidableEq, Repr, Inhabited

/-- What a run is asked to do. -/
structure Invocation where
  path : String
  verbose : Bool := false
  disableHeaders : Bool := false
  color : String := "auto"
  format : Format := .text
  /-- The file to write to, in place of the standard output. -/
  out : Option String := none
  debug : Bool := false
  deriving DecidableEq, Repr, Inhabited

/-- What the arguments ask for. -/
inductive Request where
  | run (invocation : Invocation)
  | version
  | help
  deriving DecidableEq, Repr

/-- Why the arguments cannot be taken. -/
inductive UsageFault where
  | unknown (argument : String)
  | repeated (option : String)
  | valueMissing (option : String)
  | valueUnwanted (option : String)
  | badValue (option value : String)
  | pathMissing
  deriving DecidableEq, Repr

namespace UsageFault

def message : UsageFault → String
  | unknown argument => "unexpected argument '" ++ argument ++ "' found"
  | repeated option => "the argument '" ++ option ++ "' cannot be used multiple times"
  | valueMissing option => "a value is required for '" ++ option ++ "' but none was supplied"
  | valueUnwanted option => "unexpected value for '" ++ option ++ "' found; no more were expected"
  | badValue option value => "invalid value '" ++ value ++ "' for '" ++ option ++ "'"
  | pathMissing => "the following required arguments were not provided:\n  <RESULTS>"

end UsageFault

/-- The options that take no value. -/
inductive Flag where
  | verbose
  | disableHeaders
  | debug
  deriving DecidableEq, Repr

/-- The options that take a value. -/
inductive Setting where
  | color
  | format
  | out
  deriving DecidableEq, Repr

def Flag.name : Flag → String
  | verbose => "--verbose"
  | disableHeaders => "--disable-headers"
  | debug => "--debug"

def Setting.name : Setting → String
  | color => "--color"
  | format => "--format"
  | out => "--out"

/-- What an option asks for. -/
inductive Opt where
  | flag (f : Flag)
  | setting (s : Setting)
  | version
  | help
  deriving DecidableEq, Repr

/-- The option of a long name, without its dashes. -/
def Opt.ofLong? (name : String) : Option Opt :=
  if name = "verbose" then some (.flag .verbose)
  else if name = "disable-headers" then some (.flag .disableHeaders)
  else if name = "debug" then some (.flag .debug)
  else if name = "color" then some (.setting .color)
  else if name = "format" then some (.setting .format)
  else if name = "out" then some (.setting .out)
  else if name = "version" then some .version
  else if name = "help" then some .help
  else none

/-- The option of one letter. -/
def Opt.ofShort? (letter : Char) : Option Opt :=
  if letter = 'v' then some (.flag .verbose)
  else if letter = 'V' then some .version
  else if letter = 'h' then some .help
  else none

/-- The arguments taken so far. -/
structure Taken where
  path : Option String := none
  flags : List Flag := []
  color : Option String := none
  format : Option Format := none
  out : Option String := none
  deriving DecidableEq, Repr, Inhabited

namespace Taken

/-- Take a path. -/
def takePath (taken : Taken) (path : String) : Except UsageFault Taken :=
  if taken.path.isSome then .error (.unknown path)
  else if path = "" then .error (.valueMissing "<RESULTS>")
  else .ok { taken with path := some path }

/-- Take an option without a value. -/
def takeFlag (taken : Taken) (flag : Flag) : Except UsageFault Taken :=
  if flag ∈ taken.flags then .error (.repeated flag.name)
  else .ok { taken with flags := flag :: taken.flags }

/-- Take an option with its value. -/
def takeSetting (taken : Taken) (setting : Setting) (value : String) : Except UsageFault Taken :=
  match setting with
  | .color =>
    if taken.color.isSome then .error (.repeated setting.name)
    else .ok { taken with color := some value }
  | .format =>
    if taken.format.isSome then .error (.repeated setting.name)
    else if value = "text" then .ok { taken with format := some .text }
    else if value = "json" then .ok { taken with format := some .json }
    else .error (.badValue setting.name value)
  | .out =>
    if taken.out.isSome then .error (.repeated setting.name)
    else if value = "" then .error (.valueMissing setting.name)
    else .ok { taken with out := some value }

/-- The invocation that the arguments come to. -/
def finish (taken : Taken) : Except UsageFault Request :=
  match taken.path with
  | none => .error .pathMissing
  | some path =>
    .ok (.run {
      path := path
      verbose := .verbose ∈ taken.flags
      disableHeaders := .disableHeaders ∈ taken.flags
      color := taken.color.getD "auto"
      format := taken.format.getD .text
      out := taken.out
      debug := .debug ∈ taken.flags })

end Taken

/-- An argument by its form. -/
inductive Argument where
  | doubleDash
  /-- A long option without its dashes, and a value after an equals sign. -/
  | long (name : String) (value : Option String)
  /-- One or more options of one letter. -/
  | short (letters : List Char)
  | path (path : String)
  deriving DecidableEq, Repr

/-- The form of an argument. A single dash is a path. -/
def Argument.ofString (argument : String) : Argument :=
  match argument.toList with
  | ['-', '-'] => .doubleDash
  | '-' :: '-' :: rest =>
    let name := String.ofList (rest.takeWhile (· ≠ '='))
    match rest.dropWhile (· ≠ '=') with
    | [] => .long name none
    | _ :: value => .long name (some (String.ofList value))
  | '-' :: c :: rest => .short (c :: rest)
  | _ => .path argument

/-- Whether an argument can be the value of the option before it. -/
def Argument.isValue : Argument → Bool
  | path _ => true
  | _ => false

/-- What a step comes to: more can be taken, or the request is known. -/
abbrev Step := Except UsageFault (Taken ⊕ Request)

/-- Take options of one letter. -/
def takeLetters (taken : Taken) : List Char → Step
  | [] => .ok (.inl taken)
  | letter :: letters =>
    match Opt.ofShort? letter with
    | some (.flag flag) => do takeLetters (← taken.takeFlag flag) letters
    | some .version => .ok (.inr .version)
    | some .help => .ok (.inr .help)
    | _ => .error (.unknown (String.ofList ['-', letter]))

/-- Take the arguments after a double dash. -/
def takePaths (taken : Taken) : List String → Except UsageFault Request
  | [] => taken.finish
  | path :: paths => do takePaths (← taken.takePath path) paths

/-- Take arguments. -/
def takeArguments (taken : Taken) : List String → Except UsageFault Request
  | [] => taken.finish
  | argument :: rest =>
    match Argument.ofString argument with
    | .doubleDash => takePaths taken rest
    | .path path => do takeArguments (← taken.takePath path) rest
    | .short letters => do
      match ← takeLetters taken letters with
      | .inl taken => takeArguments taken rest
      | .inr request => .ok request
    | .long name value =>
      match Opt.ofLong? name, value with
      | none, _ => .error (.unknown argument)
      | some (.setting setting), some value => do
        takeArguments (← taken.takeSetting setting value) rest
      | some (.setting setting), none =>
        match rest with
        | [] => .error (.valueMissing setting.name)
        | value :: rest =>
          if (Argument.ofString value).isValue then do
            takeArguments (← taken.takeSetting setting value) rest
          else .error (.valueMissing setting.name)
      | some _, some _ => .error (.valueUnwanted argument)
      | some (.flag flag), none => do takeArguments (← taken.takeFlag flag) rest
      | some .version, none => .ok .version
      | some .help, none => .ok .help

/-- What a list of arguments asks for. -/
def Request.ofArguments (arguments : List String) : Except UsageFault Request :=
  takeArguments {} arguments

end StringReport.CommandLine
