import CircuitFrames.Command.Run

/-!
# The program

Commands on the files and the environment of the process.
-/

namespace CircuitFrames

/-- The refusal that an error of the runtime stands for. -/
def SystemError.ofError : IO.Error → SystemError
  | .noFileOrDirectory .. => .notFound
  | .permissionDenied .. => .denied
  | .inappropriateType _ 20 _ => .notDirectory
  | .inappropriateType .. => .isDirectory
  | .invalidArgument _ 36 _ => .nameTooLong
  | e => .other (toString e)

/-- The text of a file of the process. -/
def readText (path : String) : IO (Except SystemError String) := do
  try
    let bytes ← IO.FS.readBinFile path
    match String.fromUTF8? bytes with
    | some text => return .ok text
    | none => return .error .notText
  catch e => return .error (.ofError e)

/-- The process as a system. -/
def processHost : Host IO where
  isThere path := do
    try
      let _ ← IO.FS.realPath path
      return true
    catch _ => return false
  readFile := readText
  writeFile path text := do
    try
      IO.FS.writeFile path text
      return .ok ()
    catch e => return .error (.ofError e)
  getVariable name := IO.getEnv name
  printLine line := IO.println line

end CircuitFrames

/-- Runs the program and reports a failure on the error stream. -/
def main (arguments : List String) : IO UInt32 := do
  let outcome ← CircuitFrames.runProgram CircuitFrames.processHost arguments
  match outcome with
  | .success => pure ()
  | .failure e => IO.eprintln ("Error: " ++ e.message)
  | .usage => for line in CircuitFrames.helpLines do IO.eprintln line
  return outcome.code.toUInt32
