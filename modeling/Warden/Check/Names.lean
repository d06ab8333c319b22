import Warden.Check.State
import Warden.Ty.Verdict

/-!
# Names

What a plain name, `module::name` and the name of a type mean in a scope. Each failure is reported
with its reason.
-/

namespace Warden.Check

open CheckM

/-- The type of a name used as a value. -/
def ident (name : String) (span : Span) (scope : ScopeId) : CheckM (Option Ty) := do
  let c ← get
  match c.scopes.lookup? scope name with
  | some symbol =>
    if symbol.isType then fail (.typeAsValue name) span else return some symbol.ty
  | none =>
    fail (.undefinedIdentifier name (c.scopes.findImport? scope name).isSome) span

/-- The symbol that `module::name` means. -/
def qualifiedSymbol (module name : String) (span : Span) (scope : ScopeId) :
    CheckM (Option Symbol) := do
  let c ← get
  let target := ((c.scopes.findImport? scope module).map (·.module)).getD module
  match c.scopes.qualifiedLookup scope module name with
  | .found symbol => return some symbol
  | .hidden _ => fail (.privateItem target name) span
  | .unknownModule => fail (.moduleNotImported module) span
  | .notFound => fail (.undefinedItem target name) span

/-- The type of `module::name` used as a value. -/
def qualified (module name : String) (span : Span) (scope : ScopeId) : CheckM (Option Ty) := do
  match ← qualifiedSymbol module name span scope with
  | none => return none
  | some symbol =>
    if symbol.isType then fail (.typeAsValue s!"{module}::{name}") span else return some symbol.ty

/-- The type that a name stands for. -/
def namedType (name : String) (span : Span) (scope : ScopeId) : CheckM (Option Ty) := do
  if Ty.isBuiltin name then return some (.basic name)
  match ((← get).scopes.lookup? scope name).filter (·.isType) with
  | some symbol => return some symbol.ty
  | none => fail (.unknownType name) span

/-- The type that `module::name` stands for. -/
def qualifiedType (module name : String) (span : Span) (scope : ScopeId) : CheckM (Option Ty) := do
  match ← qualifiedSymbol module name span scope with
  | none => return none
  | some symbol =>
    if symbol.isType then return some symbol.ty else fail (.notAType module name) span

end Warden.Check
