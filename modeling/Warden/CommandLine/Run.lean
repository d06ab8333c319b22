import Warden.CommandLine.Arguments
import Warden.CommandLine.Files
import Warden.Config.Reader
import Warden.Resolve
import Warden.Syntax.Text

/-!
# Running a check

A run reads its configuration, then reads and checks the programs one after the other. Findings go
to the output as JSON lines, or to the error output in the form for people, followed by a summary. A
program that cannot be read ends the run; what has been written by then stays.

`Invocation.run` is a function of what the files hold.
-/

namespace Warden.CommandLine

/-- Why a run ends early. -/
inductive Failure where
  | programUnreadable (path : String)
  /-- The file is not a program. The place that a fault points at is a byte of the text. -/
  | programInvalid (path : String) (fault : Json.Fault) (offset : Option Nat)
  | configUnreadable (path : String)
  | configInvalid
  deriving Repr, Inhabited

/-- What is said of a run that ends early. -/
def Failure.message : Failure → String
  | .programUnreadable path => s!"could not read {path}"
  | .programInvalid path .. => s!"{path} is not a valid program"
  | .configUnreadable path => s!"could not read {path}"
  | .configInvalid => "invalid configuration"

/-- What a run has written so far. -/
structure Transcript where
  out : String := ""
  err : String := ""
  deriving DecidableEq, Repr, Inhabited

/-- Counts over the programs that have been checked. -/
structure Summary where
  programs : Nat := 0
  errors : Nat := 0
  warnings : Nat := 0
  deriving DecidableEq, Repr, Inhabited

namespace Summary

/-- Whether the run fails. Warnings count only if the configuration is strict. -/
def failed (s : Summary) (strict : Bool) : Bool :=
  0 < s.errors || (strict && 0 < s.warnings)

/-- Counts a program and its findings. -/
def add (s : Summary) (r : Report) : Summary where
  programs := s.programs + 1
  errors := s.errors + r.errorCount
  warnings := s.warnings + r.warningCount

/-- The counts that are not zero. -/
def counts (s : Summary) (strict : Bool) : String :=
  let mark := if strict then " [treated as errors with --strict]" else ""
  let errors := if 0 < s.errors then [s!"{s.errors} error(s)"] else []
  let warnings := if 0 < s.warnings then [s!"{s.warnings} warning(s){mark}"] else []
  ", ".intercalate (errors ++ warnings)

/-- Writes the summary: to the error output if the run fails. -/
def write (s : Summary) (strict : Bool) (t : Transcript) : Transcript :=
  if s.failed strict then
    { t with err := t.err ++ s!"\nChecked {s.programs} program(s), found {s.counts strict}\n" }
  else if 0 < s.warnings then
    { t with out := t.out ++
      s!"Checked {s.programs} program(s), no errors ({s.warnings} warning(s))\n" }
  else { t with out := t.out ++ s!"Checked {s.programs} program(s), no errors found\n" }

end Summary

/-- Writes findings: as JSON lines, or in the form for people. -/
def Transcript.writeReport (t : Transcript) (json : Bool) (r : Report) : Transcript :=
  if json then { t with out := r.diagnostics.foldl (fun s d => s ++ d.toJsonLine ++ "\n") t.out }
  else { t with err := r.diagnostics.foldl (fun s d => s ++ d.render ++ "\n") t.err }

/-- Name of the configuration file that is looked for beside the first program. -/
def configName : String := "ferrule.toml"

/-- The configuration in a file that must be there. -/
def loadConfig (read : String → FileState) (path : String) : Except Failure Config :=
  match read path with
  | .text s =>
    match Config.ofToml? s with
    | some c => .ok c
    | none => .error .configInvalid
  | _ => .error (.configUnreadable path)

namespace Invocation

/-- The file beside the first program that may hold the configuration. -/
def configBeside (i : Invocation) : String :=
  beside (i.programs.headD "") configName

/-- The configuration: of the file that is named, or of the file beside the first program if it is
there. The options add to it. -/
def config (i : Invocation) (read : String → FileState) : Except Failure Config := do
  let c ← match i.configPath with
    | some path => loadConfig read path
    | none =>
      match read i.configBeside with
      | .absent => pure {}
      | _ => loadConfig read i.configBeside
  return { checkMem := c.checkMem && !i.noCheckMem, strict := c.strict || i.strict }

end Invocation

/-- A run between two programs. Expressions that bring no identity of their own are numbered on from
one program to the next. -/
structure Progressed where
  transcript : Transcript := {}
  summary : Summary := {}
  next : NodeId := 1

/-- What a run comes to: whether the programs are clean, or why it ended early. -/
structure Outcome where
  result : Except Failure Bool
  transcript : Transcript

/-- Reads a program. -/
def readProgram (read : String → FileState) (path : String) (next : NodeId) :
    Except Failure (Program × NodeId) :=
  match read path with
  | .text s =>
    match Program.ofText s next with
    | .ok p => .ok p
    | .error fault => .error (.programInvalid path fault (fault.offset? s))
  | _ => .error (.programUnreadable path)

/-- Checks programs one after the other. -/
def checkAll (read : String → FileState) (config : Config) (json : Bool) :
    List String → Progressed → Outcome
  | [], r =>
    let transcript := if json then r.transcript else r.summary.write config.strict r.transcript
    ⟨.ok !r.summary.failed config.strict, transcript⟩
  | path :: paths, r =>
    match readProgram read path r.next with
    | .error failure => ⟨.error failure, r.transcript⟩
    | .ok (program, next) =>
      let report := (program.check config).context.toReport
      checkAll read config json paths
        ⟨r.transcript.writeReport json report, r.summary.add report, next⟩

/-- The paths that a run may read. -/
def Invocation.paths (i : Invocation) : List String :=
  i.configPath.getD i.configBeside :: i.programs

/-- Runs the check that is asked for. -/
def Invocation.run (i : Invocation) (read : String → FileState) : Outcome :=
  match i.config read with
  | .error failure => ⟨.error failure, {}⟩
  | .ok config => checkAll read config i.json i.programs {}

end Warden.CommandLine
