import InvocationTrace.Cli.Outcome

/-!
# Program

Reads the command line, the environment and the trace file, and prints the outcome.
-/

namespace InvocationTrace

def readFault (path : String) : IO.Error → Fault
  | .noFileOrDirectory .. => .traceFileNotFound path
  | .inappropriateType _ _ details =>
      .unreadable path
        (if details.toLower = "is a directory" then .isDirectory else .notDirectory)
  | .invalidArgument (some _) .. => .unreadable path .nameTooLong
  | e => .unreadable path (.other e.toString)

def readTrace (path : String) : IO (Except Fault (List UInt8)) := do
  try
    return .ok (← IO.FS.readBinFile path).toList
  catch e =>
    return .error (readFault path e)

def answer (args : List String) : IO Cli.Outcome := do
  match Cli.request? args with
  | none => return .misused
  | some .version => return .printed Cli.versionText
  | some (.answer named command) =>
      let home := (← IO.getEnv "HOME").getD ""
      let path := Cli.traceFile home (← IO.getEnv "PI_CODING_AGENT_DIR") named
      return command.outcome (← readTrace path)

end InvocationTrace

def main (args : List String) : IO UInt32 := do
  let outcome ← InvocationTrace.answer args
  IO.print outcome.output
  IO.eprint outcome.complaint
  return outcome.exitCode.toUInt32
