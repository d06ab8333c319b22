import Warden.Scope.Basic

/-!
# Finding things from a scope

Everything is looked for from a scope outwards: names, imports, the module and the function around,
and the ledger that answers for a name. The first scope on the way that has an answer gives it.
-/

namespace Warden

/-- What `module::name` comes to. -/
inductive QualifiedLookup where
  | found (symbol : Symbol)
  /-- The item exists, but is not public. -/
  | hidden (symbol : Symbol)
  /-- No module is imported under that name. -/
  | unknownModule
  | notFound
  deriving DecidableEq, Repr, Inhabited

namespace ScopeTree

/-! ### The way outwards -/

/-- The first `n` scopes on the way outwards. -/
def climb (t : ScopeTree) : Nat → ScopeId → List ScopeId
  | 0, _ => []
  | n + 1, id =>
    id :: match (t.scope id).parent with
      | none => []
      | some parent => t.climb n parent

/-- The scope and all those around it, innermost first. Positions decrease on the way, so there are
at most `id + 1` of them. -/
def ancestors (t : ScopeTree) (id : ScopeId) : List ScopeId :=
  t.climb (id + 1) id

/-! ### Names -/

/-- The innermost declaration of a name, with the scope that holds it. -/
def locate? (t : ScopeTree) (id : ScopeId) (name : String) : Option (ScopeId × Symbol) :=
  (t.ancestors id).findSome? fun i => ((t.scope i).symbol? name).map (i, ·)

/-- The innermost declaration of a name. -/
def lookup? (t : ScopeTree) (id : ScopeId) (name : String) : Option Symbol :=
  (t.locate? id name).map (·.2)

/-- The name of the module around a scope. -/
def owningModule? (t : ScopeTree) (id : ScopeId) : Option String :=
  (t.ancestors id).findSome? fun i =>
    match (t.scope i).owner with
    | .module name => some name
    | _ => none

/-- The function nearest on a way outwards that has not left its module. -/
def functionOn? (t : ScopeTree) : List ScopeId → Option String
  | [] => none
  | i :: is =>
    match (t.scope i).owner with
    | .function name => some name
    | .module _ | .global => none
    | .block => t.functionOn? is

/-- The name of the innermost function around a scope. -/
def enclosingFunction? (t : ScopeTree) (id : ScopeId) : Option String :=
  t.functionOn? (t.ancestors id)

/-- A symbol of a scope as it is seen from a module: public, or the module's own. -/
def visible? (t : ScopeTree) (target : ScopeId) (name requester : String) : Option Symbol :=
  match (t.scope target).symbol? name with
  | none => none
  | some s =>
    if s.isPublic || t.owningModule? target == some requester then some s else none

/-! ### Modules by name -/

/-- The import of that name nearest to a scope. -/
def findImport? (t : ScopeTree) (id : ScopeId) (localName : String) : Option Import :=
  (t.ancestors id).findSome? fun i => (t.scope i).import? localName

/-- Resolves `module::name` from a scope. -/
def qualifiedLookup (t : ScopeTree) (id : ScopeId) (module name : String) : QualifiedLookup :=
  match t.findImport? id module with
  | none => .unknownModule
  | some i =>
    let requester := (t.owningModule? id).getD ""
    match t.visible? i.scope name requester with
    | some s => .found s
    | none =>
      match (t.scope i.scope).symbol? name with
      | some s => .hidden s
      | none => .notFound

/-- What `module::name` means, if it may be used. -/
def qualified? (t : ScopeTree) (id : ScopeId) (module name : String) : Option Symbol :=
  match t.qualifiedLookup id module name with
  | .found s => some s
  | _ => none

/-- The members of an enum by the name of its type. An enum of an imported module keeps its bare
name as type, so the imported modules are searched after the scopes. -/
def enumMembers? (t : ScopeTree) (id : ScopeId) (name : String) : Option (List String) :=
  ((t.lookup? id name).bind (·.enumMembers?)).or <|
    (t.ancestors id).findSome? fun i =>
      (t.scope i).imports.findSome? fun m =>
        ((t.scope m.scope).symbol? name).bind (·.enumMembers?)

/-! ### Ledgers -/

/-- The nearest scope that owns a ledger. -/
def ledgerOwner? (t : ScopeTree) (id : ScopeId) : Option ScopeId :=
  (t.ancestors id).find? fun i => (t.scope i).ledger.isSome

/-- The nearest ledger. -/
def ledger? (t : ScopeTree) (id : ScopeId) : Option Ledger :=
  (t.ledgerOwner? id).bind fun i => (t.scope i).ledger

/-- Whether a scope's own ledger has a record behind a name. -/
def ledgerKnows (t : ScopeTree) (name : String) (id : ScopeId) : Bool :=
  (t.scope id).ledger.any (·.knows name)

/-- Whether a scope's own ledger has a record behind a name that stands for another one. -/
def ledgerTracksRenamed (t : ScopeTree) (name : String) (id : ScopeId) : Bool :=
  (t.scope id).ledger.any (·.tracksRenamed name)

/-- Searches a way outwards for the ledger that answers for a name declared under `home`. Up to
`home` any record counts. Beyond it a record of that name belongs to another declaration, and only a
name that stands for another one still counts. -/
def route (t : ScopeTree) (name : String) (home : Option ScopeId) :
    Bool → List ScopeId → Option ScopeId
  | _, [] => none
  | within, i :: is =>
    if if within then t.ledgerKnows name i else t.ledgerTracksRenamed name i then some i
    else t.route name home (within && some i != home) is

/-- The scope whose ledger answers for a name: the one that has it on record, else the one around
its declaration, else the nearest. -/
def ledgerFor? (t : ScopeTree) (id : ScopeId) (name : String) : Option ScopeId :=
  match t.locate? id name with
  | none => ((t.ancestors id).find? (t.ledgerKnows name)).or (t.ledgerOwner? id)
  | some (declared, _) =>
    let home := t.ledgerOwner? declared
    ((t.route name home true (t.ancestors id)).or home).or (t.ledgerOwner? id)

end ScopeTree

end Warden
