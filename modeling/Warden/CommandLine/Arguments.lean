/-!
# Arguments of the command line

`check` takes the programs to check, and options. The argument `--json` may also stand before
`check`. After `--` every argument is a program.

Arguments are taken from left to right and the first one that cannot be taken decides the answer. A
value that has been given for an option is only looked at when the next option, the next program or
the end is reached. Programs that stand in a row are looked at together, at the next option or the
end. So an unknown option is reported before a fault in the value or the programs just before it.
-/

namespace Warden.CommandLine

/-- What is answered when the arguments do not ask for a check. -/
inductive Refusal where
  | helpAsked
  | versionAsked
  /-- There are no arguments. -/
  | nothingGiven
  /-- There are options, but no command. -/
  | commandMissing
  | commandUnknown
  | optionUnknown
  /-- An option needs a value, or a value is empty. -/
  | valueMissing
  /-- An option takes no value. -/
  | valueUnwanted
  /-- An option is given twice. -/
  | optionRepeated
  /-- There is no program to check. -/
  | programMissing
  deriving DecidableEq, Repr, Inhabited

/-- A check that is asked for. -/
structure Invocation where
  programs : List String := []
  /-- The configuration file, if one is named. -/
  configPath : Option String := none
  /-- Whether findings are written as JSON lines. -/
  json : Bool := false
  noCheckMem : Bool := false
  strict : Bool := false
  deriving DecidableEq, Repr, Inhabited

/-- The form of an argument. -/
inductive Word where
  /-- Two dashes alone. -/
  | stop
  /-- An option by its name, with what follows an equals sign. -/
  | long (name : String) (value : Option String)
  /-- Letters after a dash. -/
  | short (first : Char) (more : List Char)
  | plain (text : String)
  deriving DecidableEq, Repr, Inhabited

/-- Cuts a long option at its first equals sign. -/
def Word.ofLong (cs : List Char) : Word :=
  let name := String.ofList (cs.takeWhile (· != '='))
  match cs.dropWhile (· != '=') with
  | [] => .long name none
  | _ :: value => .long name (some (String.ofList value))

/-- The form of an argument. A dash alone is plain. -/
def Word.ofString (s : String) : Word :=
  match s.toList with
  | ['-', '-'] => .stop
  | '-' :: '-' :: cs => .ofLong cs
  | '-' :: c :: cs => .short c cs
  | _ => .plain s

/-! ## After `check` -/

/-- What has been given but not looked at. -/
inductive Pending where
  | nothing
  /-- The option for the configuration file, with its value if it has come. -/
  | configPath (value : Option String)
  /-- Programs that stand in a row. -/
  | programs (paths : List String)
  deriving DecidableEq, Repr, Inhabited

namespace Invocation

/-- Names the configuration file. -/
def setConfigPath (i : Invocation) (path : String) : Except Refusal Invocation :=
  if i.configPath.isSome then .error .optionRepeated
  else if path.isEmpty then .error .valueMissing
  else .ok { i with configPath := some path }

/-- Looks at what is pending. -/
def settle (i : Invocation) : Pending → Except Refusal Invocation
  | .nothing => .ok i
  | .configPath none => .error .valueMissing
  | .configPath (some path) => i.setConfigPath path
  | .programs paths =>
    if paths.any (·.isEmpty) then .error .valueMissing
    else .ok { i with programs := i.programs ++ paths }

def setJson (i : Invocation) : Except Refusal Invocation :=
  if i.json then .error .optionRepeated else .ok { i with json := true }

def setNoCheckMem (i : Invocation) : Except Refusal Invocation :=
  if i.noCheckMem then .error .optionRepeated else .ok { i with noCheckMem := true }

def setStrict (i : Invocation) : Except Refusal Invocation :=
  if i.strict then .error .optionRepeated else .ok { i with strict := true }

/-- Takes an option that has no value. -/
def takeFlag (i : Invocation) (pending : Pending) (value : Option String)
    (set : Invocation → Except Refusal Invocation) : Except Refusal (Invocation × Pending) := do
  if value.isSome then throw .valueUnwanted
  return (← set (← i.settle pending), .nothing)

/-- Takes a program. It joins the programs just before it; anything else pending is looked at. -/
def takeProgram (i : Invocation) (pending : Pending) (path : String) :
    Except Refusal (Invocation × Pending) :=
  match pending with
  | .programs paths => return (i, .programs (paths ++ [path]))
  | _ => return (← i.settle pending, .programs [path])

/-- Takes one argument that stands before `--`. -/
def take (i : Invocation) (pending : Pending) : Word → Except Refusal (Invocation × Pending)
  | .stop => return (i, pending)
  | .long "config" none => return (← i.settle pending, .configPath none)
  | .long "config" (some path) => return (← (← i.settle pending).setConfigPath path, .nothing)
  | .long "json" value => i.takeFlag pending value setJson
  | .long "no-check-mem" value => i.takeFlag pending value setNoCheckMem
  | .long "strict" value => i.takeFlag pending value setStrict
  | .long "help" value => i.takeFlag pending value fun _ => .error .helpAsked
  | .long _ _ => .error .optionUnknown
  | .short 'h' _ => i.takeFlag pending none fun _ => .error .helpAsked
  | .short _ _ => .error .optionUnknown
  | .plain text =>
    if pending = .configPath none then return (i, .configPath (some text))
    else i.takeProgram pending text

/-- The end of the arguments. -/
def finish (i : Invocation) (pending : Pending) : Except Refusal Invocation := do
  let i ← i.settle pending
  if i.programs.isEmpty then throw .programMissing
  return i

/-- Takes the arguments after `--`. -/
def takePrograms (i : Invocation) (pending : Pending) : List String → Except Refusal Invocation
  | [] => i.finish pending
  | path :: paths => do
    let (i, pending) ← i.takeProgram pending path
    i.takePrograms pending paths

/-- Takes the arguments after `check`. -/
def takeAll (i : Invocation) (pending : Pending) : List String → Except Refusal Invocation
  | [] => i.finish pending
  | arg :: args => do
    match Word.ofString arg with
    | .stop => i.takePrograms pending args
    | word =>
      let (i, pending) ← i.take pending word
      i.takeAll pending args

end Invocation

/-! ## All arguments -/

/-- The end of the arguments before any command. -/
def noCommand (json : Bool) : Refusal :=
  if json then .commandMissing else .nothingGiven

def isCommand (s : String) : Bool :=
  s == "check" || s == "help"

/-- The answer to `help`, which may name one command. -/
def helpOn : List String → Refusal
  | [] => .helpAsked
  | [command] => if isCommand command then .helpAsked else .commandUnknown
  | _ => .commandUnknown

/-- The answer to arguments where `--` stands before any command. -/
def stopped (json : Bool) : List String → Refusal
  | [] => noCommand json
  | arg :: _ => if isCommand arg then .optionUnknown else .commandUnknown

/-- Reads the arguments. `json` says whether `--json` has been given. -/
def parseFrom (json : Bool) : List String → Except Refusal Invocation
  | [] => .error (noCommand json)
  | "check" :: args => do
    let i ← Invocation.takeAll {} .nothing args
    return { i with json := json || i.json }
  | "help" :: args => .error (helpOn args)
  | arg :: args =>
    match Word.ofString arg with
    | .stop => .error (stopped json args)
    | .long "json" none => if json then .error .optionRepeated else parseFrom true args
    | .long "help" none => .error .helpAsked
    | .long "version" none => .error .versionAsked
    | .long name (some _) =>
      if name = "json" ∨ name = "help" ∨ name = "version" then .error .valueUnwanted
      else .error .optionUnknown
    | .long _ none => .error .optionUnknown
    | .short 'h' _ => .error .helpAsked
    | .short 'V' _ => .error .versionAsked
    | .short _ _ => .error .optionUnknown
    | .plain _ => .error .commandUnknown

/-- Reads the arguments of the command line. -/
def parse (args : List String) : Except Refusal Invocation :=
  parseFrom false args

end Warden.CommandLine
