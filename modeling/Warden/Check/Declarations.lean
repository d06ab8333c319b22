import Warden.Check.Expr

/-!
# Declarations

Variables and enums, and the signatures of functions and structs. What has a body is completed by
the module on statements.
-/

namespace Warden

open CheckM

namespace Check

/-! ### Variables -/

/-- The type of a variable from its annotation and its value, and whether the two went together.
`value` is `none` without a value, and `some none` if the value has no type. With an annotation the
variable exists whatever its value is. -/
def variableType (decl : VarDecl) (annotated : Option Ty) (value : Option (Option Ty))
    (span : Span) : CheckM (Option (Ty × Bool)) := do
  match annotated, value with
  | some ty, some (some found) =>
    if ty.assignable found then return some (ty, true)
    else
      report (.mismatch ty found) ((decl.value.map (·.span)).getD span)
      return some (ty, false)
  | some ty, some none => return some (ty, false)
  | some ty, none => return some (ty, true)
  | none, some (some found) => return some (found, true)
  | none, some none => return none
  | none, none => fail (.cannotInfer decl.name) span

/-- A resolved annotation: `none` if it cannot be resolved, `some none` if there is none. -/
def annotation (ty : Option TypeExpr) (scope : ScopeId) : CheckM (Option (Option Ty)) := do
  match ty with
  | none => return some none
  | some ty => return (← ty.resolve scope).map some

/-- The type of an initial value: `none` if there is no value. -/
def initializer (value : Option Expr) (scope : ScopeId) : CheckM (Option (Option Ty)) := do
  match value with
  | none => return none
  | some value => return some (← value.check scope)

/-- Declares a variable of a type that has been worked out. -/
def declareVariable (decl : VarDecl) (ty : Ty) (span : Span) (scope : ScopeId) : CheckM Bool := do
  if ty.isVoid then reject (.voidVariable decl.name) span
  else
    let symbol := { Symbol.ofVariable decl.name ty decl.isMutable with
      isPublic := decl.isPublic, span }
    if ← declare scope symbol span then
      if let some value := decl.value then
        bindValue decl.name value (ownsResult (← get) scope value) ty.isPointer span scope
      return true
    else return false

/-- A declaration with `let`, `var` or `const`. If the annotation cannot be resolved, the value is
not looked at. -/
def varDecl (decl : VarDecl) (span : Span) (scope : ScopeId) : CheckM Bool := do
  match ← annotation decl.ty scope with
  | none => return false
  | some annotated =>
    let value ← initializer decl.value scope
    match ← variableType decl annotated value span with
    | none => return false
    | some (ty, ok) =>
      let declared ← declareVariable decl ty span scope
      return declared && ok

/-! ### Enums -/

/-- Reports members that come twice, and returns those that remain. -/
def enumMembers (enum : String) (span : Span) (seen : List String) :
    List String → CheckM (List String)
  | [] => return []
  | member :: members => do
    if seen.contains member then
      report (.duplicateEnumMember enum member) span
      enumMembers enum span seen members
    else return member :: (← enumMembers enum span (member :: seen) members)

/-- Declares the symbol of each member. A member whose name is taken is passed over. -/
def declareEnumMembers (decl : EnumDecl) (span : Span) (scope : ScopeId) :
    List String → CheckM Unit
  | [] => return
  | member :: members => do
    let symbol : Symbol :=
      { name := s!"{decl.name}.{member}", ty := .basic decl.name, kind := .enumMember
        isPublic := decl.isPublic, span }
    modify fun c => { c with scopes := (c.scopes.insert? scope symbol).getD c.scopes }
    declareEnumMembers decl span scope members

def enumDecl (decl : EnumDecl) (span : Span) (scope : ScopeId) : CheckM Bool := do
  let members ← enumMembers decl.name span [] decl.members
  let symbol : Symbol :=
    { name := decl.name, ty := .basic decl.name, kind := .enum members, isPublic := decl.isPublic
      span }
  if ← declare scope symbol span then
    declareEnumMembers decl span scope members
    return members.length == decl.members.length
  else return false

/-! ### Functions -/

/-- The types of a function. -/
structure Signature where
  params : List Ty
  ret : Ty
  deriving DecidableEq, Repr, Inhabited

namespace Signature

def ty (s : Signature) : Ty :=
  .function s.params s.ret

end Signature

/-- The types of parameters; all are looked at, even if one fails. -/
def paramTypes (scope : ScopeId) : List Param → CheckM (Option (List Ty))
  | [] => return some []
  | p :: ps => do
    let ty ← p.ty.resolve scope
    let tys ← paramTypes scope ps
    match ty, tys with
    | some ty, some tys => return some (ty :: tys)
    | _, _ => return none

/-- The types of a function, each failure reported. -/
def signature (params : List Param) (returnType : TypeExpr) (scope : ScopeId) :
    CheckM (Option Signature) := do
  let params ← paramTypes scope params
  let ret ← returnType.resolve scope
  match params, ret with
  | some params, some ret => return some { params, ret }
  | _, _ => return none

/-- Declares a function and returns its types. The name is declared before the body is looked at, so
that the function can call itself. -/
def fnDecl (d : FnDecl) (span : Span) (scope : ScopeId) : CheckM (Option Signature) := do
  match ← signature d.params d.returnType scope with
  | none => return none
  | some sig =>
    let symbol : Symbol :=
      { name := d.name, ty := sig.ty, kind := .function, isPublic := d.isPublic
        returnsOwnership := d.returnsOwnership, takesOwnership := d.takesOwnership
        ownedParams := d.params.map (·.takesOwnership), span }
    if ← declare scope symbol span then return some sig else return none

/-- Declares the parameters of a function in the scope of its body. A pointer that the function
takes over opens a record. -/
def declareParams (takesAll : Bool) (scope : ScopeId) : List Param → List Ty → CheckM Bool
  | p :: ps, ty :: tys => do
    let symbol := { Symbol.ofVariable p.name ty true with span := p.span }
    let ok ← declare scope symbol p.span
    if ok && (takesAll || p.takesOwnership) && ty.isPointer then
      modify (·.allocate scope p.name p.span)
    let rest ← declareParams takesAll scope ps tys
    return ok && rest
  | _, _ => return true

/-- A `return` in a function of the given return type, or outside of any. -/
def returned (expected : Option Ty) (value : Option Expr) (found : Option (Option Ty))
    (span : Span) : CheckM Bool :=
  match expected, value, found with
  | none, _, _ => reject .returnOutsideFunction span
  | some expected, some value, some found =>
    match found with
    | none => return false
    | some found =>
      if expected.isVoid then reject .valueFromVoid value.span
      else if expected.assignable found then return true
      else reject (.returnMismatch expected found) value.span
  | some expected, _, _ =>
    if expected.isVoid then return true else reject (.missingReturnValue expected) span

/-! ### Structs -/

/-- Collects the data fields of a struct. A field of the struct's own type would make it endless. -/
def structFields (self : Ty) (owner : String) (scope : ScopeId) :
    StructDraft → List FieldDecl → CheckM (StructDraft × Bool)
  | draft, [] => return (draft, true)
  | draft, f :: fs => do
    let (draft, ok) ← match ← f.ty.resolve scope with
      | none => pure (draft, false)
      | some ty =>
        if ty = self then
          report (.containsItself owner) f.span
          pure (draft, false)
        else
          match draft.addField? f.name ty f.isPublic with
          | some draft => pure (draft, true)
          | none =>
            report (.duplicateMember owner f.name) f.span
            pure (draft, false)
    let (draft, rest) ← structFields self owner scope draft fs
    return (draft, ok && rest)

/-- What a method declares about `self` and ownership. -/
def methodTraits (d : FnDecl) : MethodTraits :=
  { hasSelf := d.params.head?.any (·.name == "self")
    returnsOwnership := d.returnsOwnership
    takesOwnership := d.takesOwnership
    ownedParams := d.params.map (·.takesOwnership) }

/-- Collects the methods of a struct. The result holds, method by method, the signature of those
whose bodies are to be checked. -/
def structMethods (owner : String) (scope : ScopeId) :
    StructDraft → List MethodDecl → CheckM (StructDraft × List (Option Signature))
  | draft, [] => return (draft, [])
  | draft, ⟨span, d⟩ :: ms => do
    let (draft, accepted) ← match ← signature d.params d.returnType scope with
      | none => pure (draft, none)
      | some sig =>
        match draft.addMethod? d.name sig.ty d.isPublic (methodTraits d) with
        | some draft => pure (draft, some sig)
        | none =>
          report (.duplicateMember owner d.name) span
          pure (draft, none)
    let (draft, rest) ← structMethods owner scope draft ms
    return (draft, accepted :: rest)

/-- Gives a struct its identity. -/
def reserveStruct (name : String) (isPublic : Bool) (scope : ScopeId) : CheckM StructId := do
  let c ← get
  set { c with structs := c.structs.reserve name (c.moduleAt scope) isPublic }
  return c.structs.size

/-- Installs the members of a struct. -/
def finalizeStruct (draft : StructDraft) : CheckM Unit :=
  modify fun c => { c with structs := (c.structs.finalize? draft).getD c.structs }

/-- What the declaration of a struct comes to before the bodies of its methods are looked at. -/
structure StructHead where
  isOk : Bool
  /-- Method by method, the types of those whose bodies are to be checked. -/
  signatures : List (Option Signature)
  deriving DecidableEq, Repr, Inhabited

/-- Declares a struct with all its members. The name is declared before the members are looked at,
so that they can point to the struct. If the name is taken, the struct stays without members. -/
def structDecl (d : StructDecl) (span : Span) (scope : ScopeId) : CheckM (Option StructHead) := do
  let id ← reserveStruct d.name d.isPublic scope
  let self : Ty := .struct id d.name
  let symbol : Symbol :=
    { name := d.name, ty := self, kind := .struct, isPublic := d.isPublic, span }
  if ← declare scope symbol span then
    let (draft, fieldsOk) ← structFields self d.name scope { id } d.fields
    let (draft, signatures) ← structMethods d.name scope draft d.methods
    finalizeStruct draft
    return some { isOk := fieldsOk && signatures.all (·.isSome), signatures }
  else return none

/-! ### Switches -/

/-- The values of a case, and the enum members among them. -/
def caseValues (expected : Option Ty) (scope : ScopeId) :
    List Expr → CheckM (Bool × List String)
  | [] => return (true, [])
  | value :: values => do
    let ok ← match ← value.check scope with
      | none => pure false
      | some ty =>
        match expected with
        | none => pure true
        | some expected =>
          if expected.assignable ty then pure true
          else reject (.mismatch expected ty) value.span
    let (rest, covered) ← caseValues expected scope values
    match value.kind, ok with
    | .member _ member, true => return (rest, member :: covered)
    | _, _ => return (ok && rest, covered)

/-- Whether a switch over an enum names all its members, or has a `default` exactly if it does
not. -/
def exhaustiveness (scrutinee : Option Ty) (covered : List String) (hasDefault : Bool)
    (span : Span) (scope : ScopeId) : CheckM Bool := do
  match scrutinee with
  | some (.basic name) =>
    if Ty.isBuiltin name then return true
    match (← get).scopes.enumMembers? scope name with
    | none => return true
    | some members =>
      let missing := members.filter (!covered.contains ·)
      match missing.isEmpty, hasDefault with
      | true, true =>
        report (.redundantDefault name) span
        return true
      | false, false => reject (.nonExhaustiveSwitch name missing) span
      | _, _ => return true
  | _ => return true

/-! ### Conditions -/

/-- A condition must be `bool`. -/
def condition (cond : Expr) (scope : ScopeId) : CheckM Bool := do
  match ← cond.check scope with
  | none => return false
  | some ty => if ty = .bool then return true else reject (.mismatch .bool ty) cond.span

/-- A condition that may be absent. -/
def optionalCondition (cond : Option Expr) (scope : ScopeId) : CheckM Bool :=
  match cond with
  | none => return true
  | some cond => condition cond scope

/-- An expression evaluated for its effect, that may be absent. -/
def optionalEffect (e : Option Expr) (scope : ScopeId) : CheckM Bool := do
  match e with
  | none => return true
  | some e => return (← e.check scope).isSome

end Check

end Warden
