import Warden.CommandLine.Arguments

/-!
# What the command line says of itself
-/

namespace Warden.CommandLine

def versionText : String :=
  "ferrule 0.1.0\n"

def helpText : String :=
  "\n".intercalate [
    "Semantic checker for the Ferrule systems language",
    "",
    "Usage: ferrule [--json] check [OPTIONS] <PROGRAM>...",
    "",
    "Arguments:",
    "  <PROGRAM>...     Program files (JSON AST) to check",
    "",
    "Options:",
    "  --config <FILE>  Configuration file (defaults to ferrule.toml next to the first program)",
    "  --no-check-mem   Disable leak reports",
    "  --strict         Treat warnings as errors",
    "  --json           Output diagnostics as JSON lines",
    "  --help           Print help",
    "  --version        Print version",
    ""]

namespace Refusal

/-- Whether the answer is what was asked for. -/
def isAnswer : Refusal → Bool
  | .helpAsked | .versionAsked => true
  | _ => false

/-- The text of the answer. -/
def message : Refusal → String
  | .helpAsked | .nothingGiven => helpText
  | .versionAsked => versionText
  | .commandMissing => "error: a command is required\n"
  | .commandUnknown => "error: unrecognized command\n"
  | .optionUnknown => "error: unexpected argument\n"
  | .valueMissing => "error: a value is required\n"
  | .valueUnwanted => "error: the option takes no value\n"
  | .optionRepeated => "error: the option cannot be given twice\n"
  | .programMissing => "error: a program is required\n"

end Refusal

end Warden.CommandLine
