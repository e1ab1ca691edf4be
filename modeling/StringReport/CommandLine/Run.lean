import StringReport.CommandLine.Arguments
import StringReport.CommandLine.Directory
import StringReport.Document.Printer
import StringReport.Report.Basic

/-!
# A run of the command

A run checks its options, reads its document, makes all of its output, and only then writes
it, to one place. A run that fails on the way has written nothing.
-/
namespace StringReport.CommandLine

/-- Why a run fails. -/
inductive RunFault where
  | options (fault : RenderFault)
  | load (fault : LoadFault)
  | output (fault : FileFault)
  deriving DecidableEq, Repr

/-- The messages of a fault, the outermost first. -/
def RunFault.chain : RunFault → List String
  | options fault => [fault.message]
  | load fault => fault.chain
  | output fault => [fault.message]

/-- The outermost message of a fault. -/
def RunFault.headline : RunFault → String
  | options fault => fault.message
  | load fault => fault.headline
  | output fault => fault.message

namespace Invocation

/-- The options for rendering. -/
def options (invocation : Invocation) : Options where
  verbosity := if invocation.verbose then .verbose else .brief
  disableHeaders := invocation.disableHeaders
  color := invocation.color

/-- The policy for an output that is a terminal or is not. -/
def policy (invocation : Invocation) (terminal : Bool) : Except RunFault Policy :=
  (Policy.ofOptions invocation.options terminal).mapError .options

/-- What is written, for what reading the input gave. -/
def payload (invocation : Invocation) (terminal : Bool)
    (contents : Except FileFault ByteArray) : Except RunFault String := do
  let policy ← invocation.policy terminal
  let doc ← (Document.load invocation.path contents).mapError .load
  match invocation.format with
  | .json => return doc.text ++ "\n"
  | .text =>
    let report ← (Report.assemble policy .terminal doc).outcome.mapError .options
    return report.value

end Invocation

/-- What a run leaves behind. -/
structure Outcome (σ : Type) where
  code : Nat
  stdout : String
  error : Option RunFault
  directory : σ

/-- The name and version of the command. -/
def versionLine : String := "strex 0.1.0\n"

/-- The help text of the command. -/
def helpText : String :=
  "\n".intercalate [
    "Render string extraction results as a terminal report",
    "",
    "Usage: strex [OPTIONS] <RESULTS>",
    "",
    "Arguments:",
    "  <RESULTS>  Path to the results JSON document",
    "",
    "Options:",
    "  -v, --verbose          Show offsets, addresses, function groupings and extended metadata",
    "      --disable-headers  Omit the title, metadata, section headings and table headers",
    "      --color <COLOR>    Color output: always, auto or never [default: auto]",
    "      --format <FORMAT>  Output format [default: text] [possible values: text, json]",
    "      --out <OUT>        Write output to a file instead of stdout",
    "      --debug            Enable debug logging on stderr",
    "  -h, --help             Print help",
    "  -V, --version          Print version",
    ""]

section Run

variable {σ : Type} [FileSystem σ]

/-- Write a payload to its file, or else to the standard output. -/
def deliver (directory : σ) (out : Option String) (payload : String) : Outcome σ :=
  match out with
  | none => ⟨0, payload, none, directory⟩
  | some path =>
    match FileSystem.write directory path payload with
    | .done stdout directory => ⟨0, stdout, none, directory⟩
    | .failed fault directory => ⟨1, "", some (.output fault), directory⟩

/-- Carry out an invocation. -/
def Invocation.run (invocation : Invocation) (terminal : Bool) (directory : σ) : Outcome σ :=
  match invocation.payload terminal (FileSystem.read directory invocation.path) with
  | .error fault => ⟨1, "", some fault, directory⟩
  | .ok payload => deliver directory invocation.out payload

/-- Run the command with some arguments in a directory. -/
def run (arguments : List String) (terminal : Bool) (directory : σ) : Outcome σ :=
  match Request.ofArguments arguments with
  | .error _ => ⟨2, "", none, directory⟩
  | .ok .version => ⟨0, versionLine, none, directory⟩
  | .ok .help => ⟨0, helpText, none, directory⟩
  | .ok (.run invocation) => invocation.run terminal directory

end Run

end StringReport.CommandLine
