import Warden.CommandLine.Help
import Warden.CommandLine.Run

/-!
# The program

Reads the arguments and the files they name, runs the check and writes what it says. The exit code
is 0 for clean programs, 1 for findings and for a run that ends early, 2 for wrong arguments.
-/

namespace Warden.CommandLine

/-- Reads a path. -/
def readFile (path : String) : IO FileState := do
  try
    return .ofBytes (← IO.FS.readBinFile path)
  catch
    | .permissionDenied .. => return .unreadable
    | _ => return .absent

/-- Reads the files of an invocation and runs it. -/
def execute (i : Invocation) : IO UInt32 := do
  let files ← i.paths.mapM fun path => return (path, ← readFile path)
  let outcome := i.run fun path => (files.lookup path).getD .absent
  IO.print outcome.transcript.out
  IO.eprint outcome.transcript.err
  match outcome.result with
  | .ok clean => return if clean then 0 else 1
  | .error failure =>
    IO.eprintln s!"error: {failure.message}"
    return 1

end Warden.CommandLine

open Warden.CommandLine in
/-- The command line. -/
def main (args : List String) : IO UInt32 := do
  match parse args with
  | .ok i => execute i
  | .error refusal =>
    if refusal.isAnswer then
      IO.print refusal.message
      return 0
    else
      IO.eprint refusal.message
      return 2
