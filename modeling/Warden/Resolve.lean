import Warden.Check.Stmt

/-!
# Modules in order of their dependencies

Modules may import each other in any order of writing. Resolving a program takes three passes.

1. Every module is registered under its name; a name given twice is reported.
2. The imports of each registered module are bound, now that all modules are known.
3. The modules are visited depth first, so that a module's body is checked after those it imports.

A module that is met again while it is still being visited closes a cycle. The cycle is reported,
the closing import is passed over, and all modules are still checked.
-/

namespace Warden

/-- How far the visit of a module has come. -/
inductive Progress where
  | unvisited
  | inProgress
  | done
  deriving DecidableEq, Repr, Inhabited

/-- A registered module. -/
structure Slot where
  module : Module
  scope : ScopeId
  /-- The modules it imports, each once, with the place of the first import. -/
  uses : List (String × Span) := []
  progress : Progress := .unvisited

namespace Slot

/-- Notes that the module imports another one, the first time that it does. -/
def addUse (s : Slot) (target : String) (span : Span) : Slot :=
  if s.uses.any (·.1 == target) then s else { s with uses := s.uses ++ [(target, span)] }

end Slot

/-- The state of resolving a program. -/
structure Resolver where
  checker : Checker
  /-- The registered modules in order. -/
  slots : Array Slot := #[]
  /-- The modules being visited, innermost first. -/
  stack : List Nat := []
  /-- The names of the modules in the order in which their bodies were checked. -/
  order : List String := []

namespace Resolver

/-- An action while a program is resolved. -/
abbrev ResolveM := StateM Resolver

/-- Runs an action of the check. -/
def checking {α : Type} (action : CheckM α) : ResolveM α := do
  let r ← get
  let (result, checker) := action.run r.checker
  set { r with checker }
  return result

/-- Turns to a module. -/
def enter (m : Module) : ResolveM Unit :=
  checking (modify fun c => { c with context := c.context.enter m })

def modifySlot (slot : Nat) (f : Slot → Slot) : ResolveM Unit :=
  modify fun r => { r with slots := r.slots.modify slot f }

/-- The slot of a module by name. -/
def find? (r : Resolver) (name : String) : Option Nat :=
  r.slots.findIdx? (·.module.name == name)

/-- The name of the module in a slot. -/
def nameOf (r : Resolver) (slot : Nat) : String :=
  (r.slots[slot]?.map (·.module.name)).getD ""

/-! ### Registering -/

/-- Registers a module, unless its name is taken. -/
def register (m : Module) : ResolveM Unit := do
  let r ← get
  match r.checker.scopes.addModule? m.name with
  | some scopes =>
    let slot : Slot := { module := m, scope := r.checker.scopes.size }
    set { r with checker := { r.checker with scopes }, slots := r.slots.push slot }
  | none =>
    enter m
    checking (CheckM.report (.duplicateModule m.name) m.span)

/-! ### Linking -/

/-- Binds one import of a module. -/
def linkImport (slot : Nat) (scope : ScopeId) (target : String) (localName : Option String)
    (span : Span) : ResolveM Unit := do
  let name := localName.getD target
  let c := (← get).checker
  if ((c.scopes.scope scope).import? name).isSome then
    checking (CheckM.report (.localNameTaken name) span)
  else
    match c.scopes.addImport? scope target name with
    | none => checking (CheckM.report (.moduleNotFound target) span)
    | some scopes =>
      modify fun r => { r with checker := { r.checker with scopes } }
      modifySlot slot (·.addUse target span)

/-- Binds the imports among some statements of a module. -/
def linkStmts (slot : Nat) (scope : ScopeId) : List Stmt → ResolveM Unit
  | [] => return
  | ⟨span, .importModule target localName⟩ :: stmts => do
    linkImport slot scope target localName span
    linkStmts slot scope stmts
  | _ :: stmts => linkStmts slot scope stmts

/-- Binds the imports of a registered module. -/
def link (slot : Nat) : ResolveM Unit := do
  match (← get).slots[slot]? with
  | none => return
  | some s =>
    enter s.module
    linkStmts slot s.scope s.module.body

/-! ### Visiting -/

/-- The modules on the way from `slot` to the innermost one being visited. -/
def cyclePath (stack : List Nat) (slot : Nat) : List Nat :=
  stack.reverse.dropWhile (· != slot)

/-- Reports that a module imports one that is still being visited. -/
def reportCycle (user used : Nat) (span : Span) : ResolveM Unit := do
  let r ← get
  let path := (cyclePath r.stack used ++ [used]).map r.nameOf
  match r.slots[user]? with
  | none => return
  | some s =>
    enter s.module
    checking (CheckM.report (.circularDependency path (r.nameOf user) (r.nameOf used)) span)

/-- Follows one import, visiting its module with `visit`. -/
def followUse (visit : Nat → ResolveM Unit) (user : Nat) (target : String) (span : Span) :
    ResolveM Unit := do
  let r ← get
  match r.find? target with
  | none => return
  | some used =>
    match r.slots[used]?.map Slot.progress with
    | some .inProgress => reportCycle user used span
    | _ => visit used

def followUses (visit : Nat → ResolveM Unit) (user : Nat) :
    List (String × Span) → ResolveM Unit
  | [] => return
  | (target, span) :: uses => do
    followUse visit user target span
    followUses visit user uses

/-- Checks the module in a slot, after the modules that it imports. Each visit on the way down makes
one more module a visited one, so the depth is bounded by the number of modules. -/
def visit : Nat → Nat → ResolveM Unit
  | 0, _ => return
  | fuel + 1, slot => do
    match (← get).slots[slot]? with
    | none => return
    | some s =>
      if s.progress == .unvisited then
        modifySlot slot fun s => { s with progress := .inProgress }
        modify fun r => { r with stack := slot :: r.stack }
        followUses (visit fuel) slot s.uses
        checking (s.module.check s.scope)
        modifySlot slot fun s => { s with progress := .done }
        modify fun r => { r with stack := r.stack.tail, order := r.order ++ [s.module.name] }

/-! ### All passes -/

def forEach (action : Nat → ResolveM Unit) : List Nat → ResolveM Unit
  | [] => return
  | slot :: slots => do
    action slot
    forEach action slots

def registerAll : List Module → ResolveM Unit
  | [] => return
  | m :: ms => do
    register m
    registerAll ms

/-- Registers, links and checks the modules of a program. -/
def resolve (p : Program) : ResolveM Unit := do
  registerAll p.modules
  let count := (← get).slots.size
  forEach link (List.range count)
  forEach (visit (count + 1)) (List.range count)

end Resolver

namespace Checker

/-- Resolves a program on top of what has been checked before. -/
def resolve (c : Checker) (p : Program) : Resolver :=
  ((Resolver.resolve p).run { checker := c }).2

end Checker

namespace Program

/-- Checks a program from the start. -/
def check (p : Program) (config : Config) : Checker :=
  ((Checker.ofConfig config).resolve p).checker

end Program

end Warden
