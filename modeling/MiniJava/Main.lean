import MiniJava.CommandLine.Outcome

/-!
# The command line program
-/

open MiniJava

/-- The bytes of a file, or nothing if it cannot be read. -/
def fileBytes (path : String) : IO (Option ByteArray) :=
  try
    return some (← IO.FS.readBinFile path)
  catch _ => return none

/-- Reads the file that a command names before the command runs. -/
def readFor (args : List String) : IO (String → Except ReadError String) := do
  match Command.ofArgs? args with
  | some (.view _ (some path) _) => do
    let bytes ← fileBytes path
    return fun path => SourceFile.text path bytes
  | _ => return fun path => SourceFile.text path none

def main (args : List String) : IO UInt32 := do
  let outcome := Command.runArgs (← readFor args) args
  let stdout ← IO.getStdout
  stdout.putStr outcome.output
  stdout.flush
  return outcome.exitCode.toUInt32
