import Warden.Ledger

/-!
# Scopes

All scopes of a program stand in one table, `ScopeTree`, and refer to each other by position. Scope
0 is the global one, which holds the built-in functions. Module scopes are its children and are also
registered by name; functions and blocks nest below them. A scope comes after its parent in the
table, so the way outwards always goes to smaller positions.

Function and module scopes own a ledger of allocations. Every scope may import modules, and may hold
calls of `free` that wait for its end.
-/

namespace Warden

/-- Position of a scope in the table. -/
abbrev ScopeId := Nat

/-- What a name is bound to. -/
inductive SymbolKind where
  /-- A variable, constant or parameter. -/
  | binding
  | function
  | struct
  /-- An enum with its members; each member also has a symbol `Enum.Member` of its own. -/
  | enum (members : List String)
  | enumMember
  /-- The function `alloc` or `free`. -/
  | builtin
  deriving DecidableEq, Repr, Inhabited

/-- A name with what it is bound to. -/
structure Symbol where
  name : String
  ty : Ty
  kind : SymbolKind
  isPublic : Bool := false
  isMutable : Bool := false
  /-- Depth of the scope that holds the symbol. -/
  depth : Nat := 0
  returnsOwnership : Bool := false
  takesOwnership : Bool := false
  /-- Per parameter of a function, whether it takes its argument over. -/
  ownedParams : List Bool := []
  span : Span := {}
  deriving DecidableEq, Repr, Inhabited

namespace Symbol

/-- Whether the callee takes over its argument `index`. -/
def consumesArg (s : Symbol) (index : Nat) : Bool :=
  s.takesOwnership || s.ownedParams.getD index false

/-- Whether the name is a type. -/
def isType (s : Symbol) : Bool :=
  match s.kind with
  | .struct | .enum _ => true
  | _ => false

/-- The members, if the name is an enum. -/
def enumMembers? (s : Symbol) : Option (List String) :=
  match s.kind with
  | .enum members => some members
  | _ => none

/-- A variable. -/
def ofVariable (name : String) (ty : Ty) (isMutable : Bool) : Symbol :=
  { name, ty, kind := .binding, isMutable }

end Symbol

/-- A module that a scope can name. -/
structure Import where
  module : String
  /-- The name it goes by in the scope. -/
  localName : String
  scope : ScopeId
  deriving DecidableEq, Repr, Inhabited

/-- What a scope belongs to. -/
inductive ScopeOwner where
  | global
  | module (name : String)
  | function (name : String)
  | block
  deriving DecidableEq, Repr, Inhabited

/-- A `free(name)` that waits for the end of its scope. -/
structure DeferredFree where
  name : String
  span : Span
  deriving DecidableEq, Repr, Inhabited

structure Scope where
  name : String := ""
  parent : Option ScopeId := none
  /-- Distance from the global scope. -/
  depth : Nat := 0
  owner : ScopeOwner := .block
  /-- The symbols in order of declaration, each name once. -/
  symbols : List Symbol := []
  /-- The scopes directly inside, in order. -/
  children : List ScopeId := []
  imports : List Import := []
  deferred : List DeferredFree := []
  /-- The allocations made here, for functions and modules. -/
  ledger : Option Ledger := none
  deriving DecidableEq, Repr, Inhabited

namespace Scope

def isFunction (s : Scope) : Bool :=
  match s.owner with
  | .function _ => true
  | _ => false

def isModule (s : Scope) : Bool :=
  match s.owner with
  | .module _ => true
  | _ => false

def symbol? (s : Scope) (name : String) : Option Symbol :=
  s.symbols.find? (·.name == name)

/-- The first import of that name. -/
def import? (s : Scope) (localName : String) : Option Import :=
  s.imports.find? (·.localName == localName)

end Scope

/-- All scopes of a program. -/
structure ScopeTree where
  scopes : Array Scope
  /-- The registered modules by name. -/
  modules : List (String × ScopeId) := []
  deriving DecidableEq, Repr

namespace ScopeTree

def size (t : ScopeTree) : Nat :=
  t.scopes.size

/-- The scope at a position; an empty block at a position that does not exist. -/
def scope (t : ScopeTree) (id : ScopeId) : Scope :=
  t.scopes.getD id {}

/-- Changes the scope at a position. -/
def modify (t : ScopeTree) (id : ScopeId) (f : Scope → Scope) : ScopeTree :=
  { t with scopes := t.scopes.modify id f }

/-! ### Growing the tree -/

/-- Adds a scope inside `parent`. Its position is the size of the tree before. -/
def addScope (t : ScopeTree) (parent : ScopeId) (name : String) (owner : ScopeOwner)
    (ledger : Option Ledger) : ScopeTree :=
  let child : Scope :=
    { name, parent := some parent, depth := (t.scope parent).depth + 1, owner, ledger }
  let id := t.size
  let t := t.modify parent fun s => { s with children := s.children ++ [id] }
  { t with scopes := t.scopes.push child }

/-- Adds a block. -/
def addBlock (t : ScopeTree) (parent : ScopeId) (name : String) : ScopeTree :=
  t.addScope parent name .block none

/-- Adds the scope of a function's body, with a ledger of its own. -/
def addFunction (t : ScopeTree) (parent : ScopeId) (name : String) : ScopeTree :=
  t.addScope parent name (.function name) (some {})

/-- The scope of a registered module. -/
def moduleScope? (t : ScopeTree) (name : String) : Option ScopeId :=
  t.modules.lookup name

/-- Registers a module, unless the name is taken. Its position is the size of the tree before. -/
def addModule? (t : ScopeTree) (name : String) : Option ScopeTree :=
  if (t.moduleScope? name).isSome then none
  else
    let grown := t.addScope 0 name (.module name) (some {})
    some { grown with modules := grown.modules ++ [(name, t.size)] }

/-- Declares a symbol, unless the scope has one of that name. -/
def insert? (t : ScopeTree) (id : ScopeId) (symbol : Symbol) : Option ScopeTree :=
  if ((t.scope id).symbol? symbol.name).isSome then none
  else some (t.modify id fun s =>
    { s with symbols := s.symbols ++ [{ symbol with depth := s.depth }] })

/-- Lets a scope name a module, if it is registered. -/
def addImport? (t : ScopeTree) (id : ScopeId) (module localName : String) : Option ScopeTree :=
  match t.moduleScope? module with
  | none => none
  | some scope =>
    some (t.modify id fun s => { s with imports := s.imports ++ [{ module, localName, scope }] })

/-- Queues a `free` for the end of a scope. -/
def deferFree (t : ScopeTree) (id : ScopeId) (name : String) (span : Span) : ScopeTree :=
  t.modify id fun s => { s with deferred := s.deferred ++ [{ name, span }] }

/-- Empties the queue of a scope. -/
def clearDeferred (t : ScopeTree) (id : ScopeId) : ScopeTree :=
  t.modify id fun s => { s with deferred := [] }

/-- Changes the ledger of a scope that owns one. -/
def updateLedger (t : ScopeTree) (id : ScopeId) (f : Ledger → Ledger) : ScopeTree :=
  t.modify id fun s => { s with ledger := s.ledger.map f }

/-! ### The first tree -/

/-- The function `alloc`, whose caller owns the result. -/
def allocSymbol : Symbol :=
  { name := "alloc", ty := .function [.int] (.pointer .void), kind := .builtin, isPublic := true
    returnsOwnership := true }

def freeSymbol : Symbol :=
  { name := "free", ty := .function [.pointer .void] .void, kind := .builtin, isPublic := true }

/-- The global scope with the built-in functions. -/
def initial : ScopeTree :=
  { scopes := #[{ name := "global", owner := .global, symbols := [allocSymbol, freeSymbol] }] }

instance : Inhabited ScopeTree := ⟨initial⟩

end ScopeTree

end Warden
