import StringReport.CommandLine.Run

/-!
# The command

The command reads the file that its arguments name, and writes what the run comes to. All
decisions are those of the run; only files and streams are touched here.
-/
open StringReport StringReport.CommandLine

/-- The fault that the system reported for a file. -/
def fileFault : IO.Error → FileFault
  | .noFileOrDirectory .. => .notFound
  | .inappropriateType _ code _ => if code = 20 then .notDirectory else .isDirectory
  | .invalidArgument _ 36 _ => .nameTooLong
  | .resourceExhausted _ 28 _ => .noSpace
  | e => .other (toString e)

/-- A fault with its causes. -/
def printFault (fault : RunFault) : IO Unit := do
  let stderr ← IO.getStderr
  match fault.chain with
  | [] => pure ()
  | headline :: causes =>
    stderr.putStrLn ("Error: " ++ headline)
    unless causes.isEmpty do stderr.putStrLn "\nCaused by:"
    match causes with
    | [cause] => stderr.putStrLn ("    " ++ cause)
    | _ =>
      for (cause, i) in causes.zipIdx do
        stderr.putStrLn ("    " ++ toString i ++ ": " ++ cause)

/-- The events of a run. -/
def printEvents (invocation : Invocation) (terminal : Bool)
    (contents : Except FileFault ByteArray) : IO Unit := do
  let stderr ← IO.getStderr
  if let .ok policy := invocation.policy terminal then
    stderr.putStrLn (Event.policyResolved policy.color policy.verbosity).line
    if let .ok doc := Document.load invocation.path contents then
      stderr.putStrLn (Event.loaded doc).line
      if invocation.format = .text then
        if let .ok report := Report.render invocation.options terminal .terminal doc then
          for event in report.events do
            stderr.putStrLn event.line

/-- Carry out an invocation. -/
def runInvocation (invocation : Invocation) : IO UInt32 := do
  let stdout ← IO.getStdout
  let terminal ← stdout.isTty
  let contents : Except FileFault ByteArray ←
    try pure (.ok (← IO.FS.readBinFile invocation.path))
    catch e => pure (.error (fileFault e))
  if invocation.debug then printEvents invocation terminal contents
  match invocation.payload terminal contents with
  | .error fault => printFault fault; return 1
  | .ok payload =>
    match invocation.out with
    | none => stdout.putStr payload; return 0
    | some path =>
      try
        IO.FS.withFile path .write fun file => do
          file.putStr payload
          file.flush
        return 0
      catch e => printFault (.output (fileFault e)); return 1

def main (arguments : List String) : IO UInt32 := do
  match Request.ofArguments arguments with
  | .error fault =>
    let stderr ← IO.getStderr
    stderr.putStrLn ("error: " ++ fault.message ++ "\n\nFor more information, try '--help'.")
    return 2
  | .ok .version => (← IO.getStdout).putStr versionLine; return 0
  | .ok .help => (← IO.getStdout).putStr helpText; return 0
  | .ok (.run invocation) => runInvocation invocation
