import Warden.Check.Calls

/-!
# Expressions

`Expr.check` gives an expression its type in a scope, or reports why it has none. The type of every
expression that has one is recorded under its identity. Parts are typed in the order in which they
are written, and all of them, even if one has failed; where a rule says otherwise it is noted.

`TypeExpr.resolve` gives the type that a written type stands for. It stops at its first failure.

Both recur on the syntax; what is done with the types of the parts is in the modules of the rules.
-/

namespace Warden

open CheckM

mutual

/-- The type that a written type stands for. -/
def TypeExpr.resolve (scope : ScopeId) : TypeExpr → CheckM (Option Ty)
  | .named span none name => Check.namedType name span scope
  | .named span (some module) name => Check.qualifiedType module name span scope
  | .pointer _ pointee => return (← pointee.resolve scope).map .pointer
  | .array _ element none => return (← element.resolve scope).map (.array · none)
  | .array _ element (some size) => do
    match ← element.resolve scope with
    | none => return none
    | some element => return (← size.resolveSize scope).map (.array element <| some ·)
  | .function _ params ret => do
    match ← resolveTypes scope params with
    | none => return none
    | some params => return (← ret.resolve scope).map (.function params)

/-- The types that written types stand for, up to the first failure. -/
def resolveTypes (scope : ScopeId) : List TypeExpr → CheckM (Option (List Ty))
  | [] => return some []
  | t :: ts => do
    match ← t.resolve scope with
    | none => return none
    | some ty => return (← resolveTypes scope ts).map (ty :: ·)

/-- The length that an array type states. A number is taken as it is written; anything else is an
expression and is typed. -/
def Expr.resolveSize (scope : ScopeId) : Expr → CheckM (Option ArraySize)
  | ⟨_, _, .int value⟩ => return some (.literal value.toInt)
  | ⟨id, span, kind⟩ => do
    let ty ← recorded id (← kind.check span scope)
    Check.arraySize ⟨id, span, kind⟩ ty

/-- The type of an expression. A type that is found is recorded. -/
def Expr.check (scope : ScopeId) : Expr → CheckM (Option Ty)
  | ⟨id, span, kind⟩ => do recorded id (← kind.check span scope)

/-- The type of an expression by its form. -/
def ExprKind.check (span : Span) (scope : ScopeId) : ExprKind → CheckM (Option Ty)
  | .int _ => return some .int
  | .float _ => return some (.basic "float")
  | .bool _ => return some .bool
  | .char _ => return some .char
  | .str _ => return some .string
  | .ident name => Check.ident name span scope
  | .qualified module name => Check.qualified module name span scope
  | .binary op lhs rhs => do
    let lhsTy ← lhs.check scope
    let rhsTy ← rhs.check scope
    Check.binary op lhsTy rhsTy span
  | .unary op operand => do
    let ty ← operand.check scope
    Check.unary op operand ty span scope
  | .call callee args => do
    match Check.callForm (← get) callee scope with
    | .alloc =>
      let _ ← callee.check scope
      let tys ← checkExprs scope args
      Check.alloc args tys span
    | .free =>
      let _ ← callee.check scope
      let tys ← checkExprs scope args
      Check.free args tys span scope
    | .method =>
      let receiver ← callee.checkReceiver scope
      let tys ← checkExprs scope args
      Check.methodCall callee receiver args tys span scope
    | .plain =>
      let calleeTy ← callee.check scope
      let tys ← checkExprs scope args
      Check.plainCall callee calleeTy args tys span scope
  | .member object member => do
    match ← Check.staticMember object member span scope with
    | some result => return result
    | none =>
      let objectTy ← object.check scope
      Check.valueMember objectTy member span scope
  | .index object index => do
    let objectTy ← object.check scope
    let indexTy ← index.check scope
    Check.index object index objectTy indexTy scope
  | .assign target value => do
    match Check.assignmentFault? (← get) target scope with
    | some cause => fail cause target.span
    | none =>
      let targetTy ← target.check scope
      let valueTy ← value.check scope
      Check.assign target value targetTy valueTy (Check.ownsResult · scope value) scope
  | .range start stop => do
    let startTy ← start.check scope
    let stopTy ← stop.check scope
    Check.range start stop startTy stopTy
  | .structLit module name fields => do
    let symbol ← Check.literalSymbol module name span scope
    let tys ← checkFields scope fields
    Check.structLiteral symbol name fields tys span scope
  | .arrayLit [] => fail .emptyArrayLiteral span
  | .arrayLit (first :: rest) => do
    let firstTy ← first.check scope
    let restOk ← checkElements scope firstTy rest
    match firstTy, restOk with
    | some ty, true => return some (.array ty (some (.literal (rest.length + 1))))
    | _, _ => return none
  | .cast ty value => do
    let target ← ty.resolve scope
    match ← value.check scope with
    | none => return none
    | some _ => return target
  | .sizeOfType ty => return (← ty.resolve scope).map fun _ => .int

/-- The object that a method is called on. It is typed unless it names a struct. -/
def Expr.checkReceiver (scope : ScopeId) : Expr → CheckM Check.Receiver
  | ⟨_, _, .member object _⟩ => do
    match Check.namedStruct? (← get) object scope with
    | some id => return .type id
    | none => return .value (← object.check scope)
  | _ => return .value none

/-- The types of expressions, one after the other. -/
def checkExprs (scope : ScopeId) : List Expr → CheckM (List (Option Ty))
  | [] => return []
  | e :: es => return (← e.check scope) :: (← checkExprs scope es)

/-- The types of the values of a struct literal. -/
def checkFields (scope : ScopeId) : List (String × Expr) → CheckM (List (Option Ty))
  | [] => return []
  | (_, e) :: fields => return (← e.check scope) :: (← checkFields scope fields)

/-- Types the elements of an array literal after the first, and compares each with its type. -/
def checkElements (scope : ScopeId) (expected : Option Ty) : List Expr → CheckM Bool
  | [] => return true
  | e :: es => do
    let ty ← e.check scope
    let ok ← Check.arrayElement expected e ty
    let rest ← checkElements scope expected es
    return ok && rest

end

end Warden
