import Warden.Check.Names

/-!
# Members and struct literals

`object.member` means four things. After an enum's name it is one of the enum's members, after a
struct's name a member of the struct itself, after a module's name a mistake; after a value it is a
member of the struct that the value is or points to. Only in the last case is the object an
expression with a type.

Members of a struct that are not public can be used in the declaring module only.
-/

namespace Warden.Check

open CheckM

/-- The member of a struct, if the scope may use it. -/
def structMember (id : StructId) (member : String) (span : Span) (scope : ScopeId) :
    CheckM (Option StructMember) := do
  let c ← get
  match c.structs.get? id with
  | none => return none
  | some d =>
    match d.member? member with
    | none => fail (.noStructMember d.name member) span
    | some found =>
      if !found.isPublic && d.module != c.moduleAt scope then
        fail (.privateMember found.isMethod member d.name d.module) span
      else return some found

/-- The type of a struct's member, if the scope may use it. -/
def structMemberType (id : StructId) (member : String) (span : Span) (scope : ScopeId) :
    CheckM (Option Ty) := do
  return (← structMember id member span scope).map (·.ty)

/-- The type of an enum's member, given the symbol found for it. -/
def enumMember (enum member : String) (found : Option Symbol) (span : Span) : CheckM (Option Ty) :=
  match found with
  | some symbol => return some symbol.ty
  | none => fail (.noEnumMember enum member) span

/-- Whether the symbol is an enum. -/
def isEnumSymbol (symbol : Symbol) : Bool :=
  symbol.enumMembers?.isSome

/-- Whether an object names an enum or a module rather than a value. -/
def namesEnumOrModule (c : Checker) (object : Expr) (scope : ScopeId) : Bool :=
  match object.kind with
  | .ident name =>
    match c.scopes.lookup? scope name with
    | some symbol => isEnumSymbol symbol
    | none => (c.scopes.findImport? scope name).isSome
  | .qualified module name => (c.scopes.qualified? scope module name).any isEnumSymbol
  | _ => false

/-- The type of `object.member` where the object names an enum, a struct or a module. `none` means
that it does not, so that the object has to be typed. -/
def staticMember (object : Expr) (member : String) (span : Span) (scope : ScopeId) :
    CheckM (Option (Option Ty)) := do
  let c ← get
  match object.kind with
  | .ident name =>
    match c.scopes.lookup? scope name with
    | some symbol =>
      match symbol.kind with
      | .enum _ =>
        let found := c.scopes.lookup? scope s!"{name}.{member}"
        return some (← enumMember name member found span)
      | .struct =>
        match symbol.ty.structId? with
        | none => return some none
        | some id => return some (← structMemberType id member span scope)
      | _ => return none
    | none =>
      if (c.scopes.findImport? scope name).isSome then
        return some (← fail (.dotOnModule name member) span)
      else return none
  | .qualified module name =>
    if (c.scopes.qualified? scope module name).any isEnumSymbol then
      let found := c.scopes.qualified? scope module s!"{name}.{member}"
      return some (← enumMember name member found span)
    else return none
  | _ => return none

/-- The type of `object.member` where the object is a value. -/
def valueMember (objectTy : Option Ty) (member : String) (span : Span) (scope : ScopeId) :
    CheckM (Option Ty) :=
  match objectTy with
  | none => return none
  | some ty =>
    match ty.structId? with
    | none => fail (.noMember ty member) span
    | some id => structMemberType id member span scope

/-! ### Struct literals -/

/-- The symbol that names the struct of a literal. -/
def literalSymbol (module : Option String) (name : String) (span : Span) (scope : ScopeId) :
    CheckM (Option Symbol) := do
  match module with
  | some module => qualifiedSymbol module name span scope
  | none =>
    match (← get).scopes.lookup? scope name with
    | some symbol => return some symbol
    | none => fail (.unknownStruct name) span

/-- The definition of the struct that a symbol names. -/
def structOfSymbol? (c : Checker) (symbol : Symbol) : Option StructDef :=
  match symbol.kind with
  | .struct => symbol.ty.structId?.bind c.structs.get?
  | _ => none

/-- One field of a literal. `seen` holds the names of the fields before it. -/
def literalField (d : StructDef) (module : String) (seen : List String) (field : String)
    (value : Expr) (ty : Option Ty) : CheckM Bool := do
  if seen.contains field then reject (.fieldSetTwice field) value.span
  else
    match (d.member? field).filter (!·.isMethod) with
    | none => reject (.noField d.name field) value.span
    | some member =>
      let mut ok := true
      if !member.isPublic && d.module != module then
        ok ← reject (.privateField field d.name) value.span
      match ty with
      | none => return false
      | some ty =>
        if member.ty.assignable ty then return ok
        else reject (.mismatch member.ty ty) value.span

/-- The fields of a literal, one after the other. -/
def literalFields (d : StructDef) (module : String) (seen : List String) :
    List (String × Expr) → List (Option Ty) → CheckM Bool
  | (field, value) :: fields, ty :: tys => do
    let ok ← literalField d module seen field value ty
    let rest ← literalFields d module (field :: seen) fields tys
    return ok && rest
  | _, _ => return true

/-- A struct literal once its values are typed. Every data field must be set, and set once. -/
def structLiteral (symbol : Option Symbol) (name : String) (fields : List (String × Expr))
    (tys : List (Option Ty)) (span : Span) (scope : ScopeId) : CheckM (Option Ty) := do
  match symbol with
  | none => return none
  | some symbol =>
    let c ← get
    match structOfSymbol? c symbol with
    | none => fail (.notAStruct name) span
    | some d =>
      let fieldsOk ← literalFields d (c.moduleAt scope) [] fields tys
      let missing := (d.fields.map (·.name)).filter fun f => !(fields.any (·.1 == f))
      if !missing.isEmpty then fail (.missingFields d.name missing) span
      else if fieldsOk then return some d.ty
      else return none

end Warden.Check
