import Warden.Check.Members
import Warden.Check.Operators

/-!
# Calls

A call is one of four forms. `alloc` and `free` have rules of their own. `object.method(…)` is a
method call unless the object names an enum or a module. Everything else calls the value of an
expression.

Arguments are typed before anything is said about them. A pointer that is passed by name to a
parameter that takes it over leaves the caller: it is released as a transfer.
-/

namespace Warden

namespace Check

open CheckM

/-- The forms of a call. -/
inductive CallForm where
  | alloc
  | free
  | method
  | plain
  deriving DecidableEq, Repr

/-- Which form a call has. -/
def callForm (c : Checker) (callee : Expr) (scope : ScopeId) : CallForm :=
  match callee.kind with
  | .ident name =>
    if (c.scopes.lookup? scope name).any (·.kind == .builtin) then
      if name == "alloc" then .alloc
      else if name == "free" then .free
      else .plain
    else .plain
  | .member object _ => if namesEnumOrModule c object scope then .plain else .method
  | _ => .plain

/-- The symbol that an expression names, if it may be used. -/
def namedSymbol? (c : Checker) (e : Expr) (scope : ScopeId) : Option Symbol :=
  match e.kind with
  | .ident name => c.scopes.lookup? scope name
  | .qualified module name => c.scopes.qualified? scope module name
  | _ => none

/-- The struct that an object names, as in `Point.new(…)`. -/
def namedStruct? (c : Checker) (object : Expr) (scope : ScopeId) : Option StructId :=
  match namedSymbol? c object scope with
  | none => none
  | some symbol =>
    match symbol.kind with
    | .struct => symbol.ty.structId?
    | _ => none

/-! ### Arguments -/

/-- Compares arguments with parameters of the same number. -/
def argumentTypes : List Ty → List Expr → List (Option Ty) → CheckM Bool
  | param :: params, arg :: args, ty :: tys => do
    let ok ← match ty with
      | none => pure false
      | some ty =>
        if param.assignable ty then pure true else reject (.mismatch param ty) arg.span
    let rest ← argumentTypes params args tys
    return ok && rest
  | _, _, _ => return true

/-- Compares arguments with parameters. With the wrong number of them, no type is looked at. -/
def arguments (callee : String) (params : List Ty) (args : List Expr) (tys : List (Option Ty))
    (span : Span) : CheckM Bool :=
  if params.length != args.length then
    reject (.argumentCount callee params.length args.length) span
  else argumentTypes params args tys

/-- Releases the pointers that are passed by name to parameters that take them over. `consumes` says
which positions do, counted from `index`. -/
def transfer (consumes : Nat → Bool) (scope : ScopeId) :
    Nat → List Expr → List (Option Ty) → CheckM Unit
  | index, arg :: args, ty :: tys => do
    if consumes index && ty.any (·.isPointer) then
      if let some name := arg.ident? then
        modify (·.release scope name arg.span .transfer)
    transfer consumes scope (index + 1) args tys
  | _, _, _ => return

/-! ### Built-in functions -/

def alloc (args : List Expr) (tys : List (Option Ty)) (span : Span) : CheckM (Option Ty) := do
  if ← arguments "alloc" [.int] args tys span then return some Ty.voidPointer else return none

/-- A call `free(p)` releases a name now, or under `defer` at the end of the scope. -/
def free (args : List Expr) (tys : List (Option Ty)) (span : Span) (scope : ScopeId) :
    CheckM (Option Ty) := do
  match args, tys with
  | [arg], [ty] =>
    match ty with
    | none => return none
    | some ty =>
      if !ty.isPointer then fail (.freeOfNonPointer ty) arg.span
      else
        if let some name := arg.ident? then
          match (← get).walk.deferTarget with
          | some target =>
            modify fun c => { c with scopes := c.scopes.deferFree target name span }
          | none => modify (·.release scope name span .explicit)
        return some .void
  | _, _ => fail (.argumentCount "free" 1 args.length) span

/-! ### Calls of a value -/

/-- How a callee is called in messages. -/
def calleeName (callee : Expr) : String :=
  match callee.kind with
  | .ident name => name
  | .qualified module name => s!"{module}::{name}"
  | .member _ member => member
  | _ => "function"

/-- A call of the value of an expression. -/
def plainCall (callee : Expr) (calleeTy : Option Ty) (args : List Expr) (tys : List (Option Ty))
    (span : Span) (scope : ScopeId) : CheckM (Option Ty) := do
  match calleeTy with
  | none => return none
  | some (.function params ret) =>
    let ok ← arguments (calleeName callee) params args tys span
    match namedSymbol? (← get) callee scope with
    | some symbol => transfer symbol.consumesArg scope 0 args tys
    | none => pure ()
    return if ok then some ret else none
  | some other => fail (.notCallable other) callee.span

/-! ### Method calls -/

/-- What a method is called on. -/
inductive Receiver where
  /-- On the struct itself: `Point.new(…)`. -/
  | type (id : StructId)
  /-- On a value, of the given type if it has one. -/
  | value (ty : Option Ty)
  deriving DecidableEq, Repr

/-- Whether a receiver can be passed as `self`. The address of a struct is taken, and a pointer to
one followed, where that is what the method wants. -/
def receiverFits (self receiver : Ty) : Bool :=
  match self, receiver with
  | .pointer pointee, .struct id name => pointee = .struct id name || self.assignable receiver
  | .struct id name, .pointer pointee => pointee = .struct id name || self.assignable receiver
  | _, _ => self.assignable receiver

/-- The parameters that explicit arguments go to, and the position of the first of them. A value
receiver is passed as `self`, if the method has one. -/
def explicitParams (found : StructMember) (params : List Ty) (receiver : Option Ty)
    (span : Span) : CheckM (Option (List Ty × Nat)) :=
  match receiver, found.kind with
  | some receiver, .method { hasSelf := true, .. } =>
    match params with
    | [] => return none
    | self :: rest =>
      if receiverFits self receiver then return some (rest, 1)
      else fail (.mismatch self receiver) span
  | _, _ => return some (params, 0)

/-- The call of a member of a struct, once the arguments are typed. -/
def memberCall (callee : Expr) (id : StructId) (receiver : Option Ty) (member : String)
    (args : List Expr) (tys : List (Option Ty)) (span : Span) (scope : ScopeId) :
    CheckM (Option Ty) := do
  match ← structMember id member callee.span scope with
  | none => return none
  | some found =>
    modify (·.record callee.id found.ty)
    match found.ty with
    | .function params ret =>
      match ← explicitParams found params receiver callee.span with
      | none => return none
      | some (params, offset) =>
        let ok ← arguments member params args tys span
        transfer (fun i => found.consumesParam (i + offset)) scope 0 args tys
        return if ok then some ret else none
    | other => fail (.fieldNotCallable member other) callee.span

/-- A method call, once receiver and arguments are typed. -/
def methodCall (callee : Expr) (receiver : Receiver) (args : List Expr) (tys : List (Option Ty))
    (span : Span) (scope : ScopeId) : CheckM (Option Ty) := do
  let member := calleeName callee
  match receiver with
  | .type id => memberCall callee id none member args tys span scope
  | .value none => return none
  | .value (some ty) =>
    match ty.structId? with
    | none => fail (.noMember ty member) callee.span
    | some id => memberCall callee id (some ty) member args tys span scope

/-! ### Owned results -/

/-- Whether a member is a method whose caller owns the result. -/
def returnsOwnership (m : StructMember) : Bool :=
  match m.kind with
  | .method traits => traits.returnsOwnership
  | .field => false

/-- Whether the caller of `callee` owns the result. The object of a method call has been typed
before, so that its struct can be taken from the table of types. -/
def calleeReturnsOwnership (c : Checker) (callee : Expr) (scope : ScopeId) : Bool :=
  match callee.kind with
  | .member object member =>
    let id? := (namedStruct? c object scope).or ((c.types.get? object.id).bind (·.structId?))
    (id?.bind (c.structs.member? · member)).any returnsOwnership
  | _ => (namedSymbol? c callee scope).any (·.returnsOwnership)

/-- Whether an expression, perhaps under casts, is a call whose result the caller owns. -/
def ownsResult (c : Checker) (scope : ScopeId) : Expr → Bool
  | ⟨_, _, .cast _ value⟩ => ownsResult c scope value
  | ⟨_, _, .call callee _⟩ => calleeReturnsOwnership c callee scope
  | _ => false

end Check

end Warden
