import Warden.Scope.Lookup
import Warden.StructTable

/-!
# The state of a check

A check walks over statements and expressions once. Its state, `Checker`, holds what it builds (the
scopes, the struct table, the types of expressions), what it has found, and where it is: the `Walk`.

* `Checker.report` files a finding. The list of findings only grows.
* `Checker.allocate`, `Checker.rename`, `Checker.release` and `Checker.checkUse` drive the ledgers.
  They never influence anything but ledgers and findings.
* `Checker.leaveScope` carries out the calls of `free` that waited for the end of a scope.

`CheckM` is the monad of actions on this state. `CheckM.within` changes the walk for the time of one
action and puts it back whatever the action did.
-/

namespace Warden

/-- The function whose body is being checked. -/
structure Frame where
  returnType : Ty
  ownership : Ownership
  deriving DecidableEq, Repr, Inhabited

/-- Where a check is. -/
structure Walk where
  /-- The functions around, innermost first. -/
  frames : List Frame := []
  /-- How many loops of the current function are around. -/
  loopDepth : Nat := 0
  /-- The scope that collects calls of `free` while a `defer` is checked. -/
  deferTarget : Option ScopeId := none
  deriving DecidableEq, Repr, Inhabited

/-- The types of expressions by identity. -/
structure TypeTable where
  /-- Latest entry first. -/
  entries : List (NodeId × Ty) := []
  deriving DecidableEq, Repr, Inhabited

namespace TypeTable

/-- The latest type recorded for an identity. -/
def get? (t : TypeTable) (id : NodeId) : Option Ty :=
  t.entries.lookup id

/-- Records a type; a later one replaces an earlier one. -/
def insert (t : TypeTable) (id : NodeId) (ty : Ty) : TypeTable :=
  ⟨(id, ty) :: t.entries⟩

/-- Of neighbours with the same identity, keeps the first. -/
def dropRepeats : List (NodeId × Ty) → List (NodeId × Ty)
  | [] => []
  | (id, ty) :: rest => (id, ty) :: (dropRepeats rest).dropWhile (·.1 == id)

/-- The recorded types by increasing identity. -/
def toList (t : TypeTable) : List (NodeId × Ty) :=
  dropRepeats (t.entries.mergeSort fun a b => a.1 ≤ b.1)

end TypeTable

/-- The state of a check. -/
structure Checker where
  scopes : ScopeTree := .initial
  structs : StructTable := {}
  types : TypeTable := {}
  context : Context := {}
  walk : Walk := {}
  deriving Repr, Inhabited

namespace Checker

/-- The state at the start of a run. -/
def ofConfig (config : Config) : Checker :=
  { context := { config } }

/-- Files a finding. -/
def report (c : Checker) (cause : Cause) (span : Span) : Checker :=
  { c with context := c.context.report cause span }

/-- Records the type of an expression. -/
def record (c : Checker) (id : NodeId) (ty : Ty) : Checker :=
  { c with types := c.types.insert id ty }

/-- What the current function declares about ownership. -/
def ownership? (c : Checker) : Option Ownership :=
  c.walk.frames.head?.map (·.ownership)

/-- The module that a scope belongs to. -/
def moduleAt (c : Checker) (scope : ScopeId) : String :=
  (c.scopes.owningModule? scope).getD c.context.moduleName

/-! ### Ledgers -/

/-- Opens a record in the nearest ledger. -/
def allocate (c : Checker) (scope : ScopeId) (name : String) (span : Span) : Checker :=
  match c.scopes.ledgerOwner? scope with
  | none => c
  | some id =>
    { c with scopes := c.scopes.updateLedger id (·.allocate span name c.ownership?) }

/-- Lets `target` stand for `source`, in the ledger that answers for `source`. -/
def rename (c : Checker) (scope : ScopeId) (target source : String) : Checker :=
  match c.scopes.ledgerFor? scope source with
  | none => c
  | some id => { c with scopes := c.scopes.updateLedger id (·.rename target source) }

/-- Releases a name in the ledger that answers for it. -/
def release (c : Checker) (scope : ScopeId) (name : String) (span : Span) (kind : FreeKind) :
    Checker :=
  match c.scopes.ledgerFor? scope name with
  | none => c
  | some id =>
    match (c.scopes.scope id).ledger with
    | none => c
    | some ledger =>
      let outcome := (ledger.release name span kind).2
      { c with
        scopes := c.scopes.updateLedger id fun l => (l.release name span kind).1
        context := c.context.reportAny span (outcome.cause? name kind) }

/-- Reports the use of a name whose record has been freed. -/
def checkUse (c : Checker) (scope : ScopeId) (name : String) (span : Span) : Checker :=
  let cause? := (c.scopes.ledgerFor? scope name).bind fun id =>
    (c.scopes.scope id).ledger.bind (·.useCause? name)
  { c with context := c.context.reportAny span cause? }

/-- Carries out the calls of `free` that waited for the end of a scope, in order. -/
def leaveScope (c : Checker) (scope : ScopeId) : Checker :=
  let waiting := (c.scopes.scope scope).deferred
  waiting.foldl (fun c d => c.release scope d.name d.span .explicit)
    { c with scopes := c.scopes.clearDeferred scope }

/-- Reports what was never freed in the ledger of a scope, if leaks are wanted. -/
def reportLeaks (c : Checker) (scope : ScopeId) : Checker :=
  if c.context.config.checkMem then
    match (c.scopes.scope scope).ledger with
    | none => c
    | some ledger => { c with context := c.context.reportLeaks ledger }
  else c

end Checker

/-- An action on the state of a check. -/
abbrev CheckM := StateM Checker

namespace CheckM

def report (cause : Cause) (span : Span) : CheckM Unit :=
  modify (·.report cause span)

/-- Files a finding and gives up on the result. -/
def fail {α : Type} (cause : Cause) (span : Span) : CheckM (Option α) := do
  report cause span
  return none

/-- Files a finding and calls the statement faulty. -/
def reject (cause : Cause) (span : Span) : CheckM Bool := do
  report cause span
  return false

/-- Takes a result that has been worked out, or files why there is none. -/
def settle {α : Type} (result : Except Cause α) (span : Span) : CheckM (Option α) :=
  match result with
  | .ok a => return some a
  | .error cause => fail cause span

/-- Records the type of an expression, if it has one. -/
def recorded (id : NodeId) (ty : Option Ty) : CheckM (Option Ty) := do
  if let some ty := ty then modify (·.record id ty)
  return ty

/-- Adds a block inside a scope. -/
def addBlock (parent : ScopeId) (name : String) : CheckM ScopeId :=
  modifyGet fun c => (c.scopes.size, { c with scopes := c.scopes.addBlock parent name })

/-- Adds the scope of a function's body. -/
def addFunction (parent : ScopeId) (name : String) : CheckM ScopeId :=
  modifyGet fun c => (c.scopes.size, { c with scopes := c.scopes.addFunction parent name })

/-- Declares a symbol. If the name is taken, says so and declares nothing. -/
def declare (scope : ScopeId) (symbol : Symbol) (span : Span) : CheckM Bool := do
  let c ← get
  match c.scopes.insert? scope symbol with
  | some scopes =>
    set { c with scopes }
    return true
  | none =>
    let previous := ((c.scopes.scope scope).symbol? symbol.name).map (·.span.line)
    reject (.duplicateSymbol symbol.name (previous.getD 0)) span

/-- Runs an action with a changed walk, and puts the walk back. -/
def within {α : Type} (change : Walk → Walk) (action : CheckM α) : CheckM α := do
  let saved := (← get).walk
  modify fun c => { c with walk := change c.walk }
  let result ← action
  modify fun c => { c with walk := saved }
  return result

end CheckM

end Warden
