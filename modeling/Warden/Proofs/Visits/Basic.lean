import Warden.Proofs.Modules
import Warden.Proofs.Visits.Sites

/-!
# What a check visits

A check comes to the expressions of a program one after the other, each in a scope and in a state.
The functions here write down these visits. They follow the walk call by call: where the walk checks
a part, its visits are listed in the state that has been reached by then, and where the walk passes
a part over, so do they.

Not every expression is visited for its type. The name of an enum or a struct before a dot is no
value, the callee of a method call is looked up in a struct, and a number that is written as the
length of an array is taken as it is. `Part` tells these apart, and `Visit.found` is the type that
each visit comes to.

The visits of an expression come in the order in which types are recorded: parts first.
-/

namespace Warden

open CheckM

/-- What the check comes to, and what for. -/
inductive Part where
  /-- An expression that is typed, whatever its role. -/
  | value (role : Role) (e : Expr)
  /-- The callee of a method call, with what the method is called on. -/
  | callee (e : Expr) (receiver : Check.Receiver)
  /-- An object before a dot that is a name and no value. -/
  | name (e : Expr)
  /-- A number that is the length of an array. -/
  | length (e : Expr)
  /-- A written type that names an item of a module. -/
  | type (t : TypeExpr)

namespace Part

/-- The site that is visited. -/
def site : Part → Site
  | .value role e => .expr role e
  | .callee e _ => .expr .callee e
  | .name e => .expr .object e
  | .length e => .expr .length e
  | .type t => .type t

end Part

/-- A part with the scope and the state in which the check comes to it. -/
structure Visit where
  part : Part
  scope : ScopeId
  state : Checker

namespace Check

/-- The struct of a receiver. -/
def Receiver.structId? : Receiver → Option StructId
  | .type id => some id
  | .value ty => ty.bind (·.structId?)

/-- The member that a method call calls. -/
def calledMember (callee : Expr) (receiver : Receiver) (scope : ScopeId) :
    CheckM (Option StructMember) :=
  receiver.structId?.elim (pure none) fun id =>
    structMember id (calleeName callee) callee.span scope

end Check

namespace Visit

def site (v : Visit) : Site :=
  v.part.site

/-- The identity of the visited expression. -/
def id? (v : Visit) : Option NodeId :=
  v.site.id?

/-- The type that the visit comes to. -/
def found (v : Visit) : Option Ty :=
  match v.part with
  | .value _ e => (e.check v.scope).eval v.state
  | .callee e receiver => ((Check.calledMember e receiver v.scope).eval v.state).map (·.ty)
  | .name _ | .length _ | .type _ => none

/-- The entry that the visit leaves in the table of types. -/
def entry? (v : Visit) : Option (NodeId × Ty) :=
  v.id?.bind fun id => v.found.map (id, ·)

end Visit

/-! ### Traces -/

/-- The visits of an action by the state in which it starts. -/
abbrev Trace := Checker → List Visit

namespace Trace

variable {α : Type}

/-- Nothing is visited. -/
def nothing : Trace := fun _ => []

/-- One part is visited. -/
def one (part : Part) (scope : ScopeId) : Trace := fun c => [⟨part, scope, c⟩]

/-- An expression whose parts have been visited. -/
def endingIn (parts : Trace) (part : Part) (scope : ScopeId) : Trace :=
  fun c => parts c ++ [⟨part, scope, c⟩]

/-- What an action visits, and then what is visited from the state that it leaves. -/
def andThen (m : CheckM α) (first : Trace) (rest : α → Trace) : Trace :=
  fun c => first c ++ rest (m.eval c) (m.exec c)

/-- What is visited after an action that visits nothing. -/
def after (m : CheckM α) (rest : α → Trace) : Trace :=
  fun c => rest (m.eval c) (m.exec c)

/-- What is visited if there is a result. -/
def whenSome (rest : α → Trace) (result : Option α) : Trace :=
  result.elim nothing rest

/-- What is visited in a changed walk. -/
def within (change : Walk → Walk) (t : Trace) : Trace :=
  fun c => t { c with walk := change c.walk }

end Trace

open Trace

/-! ### Expressions and written types -/

mutual

def TypeExpr.visits (scope : ScopeId) : TypeExpr → Trace
  | .named _ none _ => nothing
  | .named span (some module) name => one (.type (.named span (some module) name)) scope
  | .pointer _ pointee => pointee.visits scope
  | .array _ element none => element.visits scope
  | .array _ element (some size) =>
    andThen (element.resolve scope) (element.visits scope)
      (whenSome fun _ => size.sizeVisits scope)
  | .function _ params ret =>
    andThen (resolveTypes scope params) (typeVisits scope params)
      (whenSome fun _ => ret.visits scope)

def typeVisits (scope : ScopeId) : List TypeExpr → Trace
  | [] => nothing
  | t :: ts => andThen (t.resolve scope) (t.visits scope) (whenSome fun _ => typeVisits scope ts)

def Expr.sizeVisits (scope : ScopeId) : Expr → Trace
  | ⟨id, span, .int value⟩ => one (.length ⟨id, span, .int value⟩) scope
  | ⟨id, span, kind⟩ => endingIn (kind.visits span scope) (.value .length ⟨id, span, kind⟩) scope

def Expr.visits (scope : ScopeId) (role : Role) : Expr → Trace
  | ⟨id, span, kind⟩ => endingIn (kind.visits span scope) (.value role ⟨id, span, kind⟩) scope

def ExprKind.visits (span : Span) (scope : ScopeId) : ExprKind → Trace
  | .int _ | .float _ | .bool _ | .char _ | .str _ | .ident _ | .qualified .. => nothing
  | .binary _ lhs rhs =>
    andThen (lhs.check scope) (lhs.visits scope .value) fun _ => rhs.visits scope .value
  | .unary _ operand => operand.visits scope .value
  | .call callee args => fun c =>
    if Check.callForm c callee scope = .method then
      andThen (callee.checkReceiver scope) (callee.receiverVisits scope) (fun receiver =>
        andThen (checkExprs scope args) (exprVisits scope args) fun _ =>
          one (.callee callee receiver) scope) c
    else
      andThen (callee.check scope) (callee.visits scope .callee) (fun _ => exprVisits scope args) c
  | .member object member => fun c =>
    if ((Check.staticMember object member span scope).eval c).isSome then
      one (.name object) scope c
    else
      after (Check.staticMember object member span scope) (fun _ => object.visits scope .object) c
  | .index object index =>
    andThen (object.check scope) (object.visits scope .value) fun _ => index.visits scope .value
  | .assign target value => fun c =>
    if (Check.assignmentFault? c target scope).isSome then []
    else
      andThen (target.check scope) (target.visits scope .value)
        (fun _ => value.visits scope .value) c
  | .range start stop =>
    andThen (start.check scope) (start.visits scope .value) fun _ => stop.visits scope .value
  | .structLit module name fields =>
    after (Check.literalSymbol module name span scope) fun _ => fieldVisits scope fields
  | .arrayLit [] => nothing
  | .arrayLit (first :: rest) =>
    andThen (first.check scope) (first.visits scope .value) fun ty => elementVisits scope ty rest
  | .cast ty value =>
    andThen (ty.resolve scope) (ty.visits scope) fun _ => value.visits scope .value
  | .sizeOfType ty => ty.visits scope

def Expr.receiverVisits (scope : ScopeId) : Expr → Trace
  | ⟨_, _, .member object _⟩ => fun c =>
    if (Check.namedStruct? c object scope).isSome then one (.name object) scope c
    else object.visits scope .object c
  | _ => nothing

def exprVisits (scope : ScopeId) : List Expr → Trace
  | [] => nothing
  | e :: es => andThen (e.check scope) (e.visits scope .value) fun _ => exprVisits scope es

def fieldVisits (scope : ScopeId) : List (String × Expr) → Trace
  | [] => nothing
  | (_, e) :: fields =>
    andThen (e.check scope) (e.visits scope .value) fun _ => fieldVisits scope fields

def elementVisits (scope : ScopeId) (expected : Option Ty) : List Expr → Trace
  | [] => nothing
  | e :: es =>
    andThen (do Check.arrayElement expected e (← e.check scope)) (e.visits scope .value) fun _ =>
      elementVisits scope expected es

end

/-! ### Declarations -/

def optionalTypeVisits (scope : ScopeId) : Option TypeExpr → Trace
  | none => nothing
  | some ty => ty.visits scope

def optionalExprVisits (scope : ScopeId) : Option Expr → Trace
  | none => nothing
  | some e => e.visits scope .value

def paramVisits (scope : ScopeId) : List Param → Trace
  | [] => nothing
  | p :: ps => andThen (p.ty.resolve scope) (p.ty.visits scope) fun _ => paramVisits scope ps

def signatureVisits (params : List Param) (returnType : TypeExpr) (scope : ScopeId) : Trace :=
  andThen (Check.paramTypes scope params) (paramVisits scope params) fun _ =>
    returnType.visits scope

/-- The types of fields. What is left after one field is found by collecting that field alone. -/
def fieldDeclVisits (self : Ty) (owner : String) (scope : ScopeId) :
    StructDraft → List FieldDecl → Trace
  | _, [] => nothing
  | draft, f :: fs =>
    andThen (Check.structFields self owner scope draft [f]) (f.ty.visits scope) fun result =>
      fieldDeclVisits self owner scope result.1 fs

/-- The types of methods, whose bodies are visited later. -/
def methodTypeVisits (owner : String) (scope : ScopeId) : StructDraft → List MethodDecl → Trace
  | _, [] => nothing
  | draft, ⟨span, d⟩ :: ms =>
    andThen (Check.structMethods owner scope draft [⟨span, d⟩])
      (signatureVisits d.params d.returnType scope) fun result =>
        methodTypeVisits owner scope result.1 ms

/-- The types of a struct's members. -/
def memberVisits (d : StructDecl) (span : Span) (scope : ScopeId) : Trace :=
  after (Check.reserveStruct d.name d.isPublic scope) fun id =>
    let self : Ty := .struct id d.name
    after (declare scope
      { name := d.name, ty := self, kind := .struct, isPublic := d.isPublic, span } span) fun ok =>
        if ok then
          andThen (Check.structFields self d.name scope { id } d.fields)
            (fieldDeclVisits self d.name scope { id } d.fields) fun result =>
              methodTypeVisits d.name scope result.1 d.methods
        else nothing

def caseValueVisits (expected : Option Ty) (scope : ScopeId) : List Expr → Trace
  | [] => nothing
  | value :: values =>
    andThen (Check.caseValues expected scope [value]) (value.visits scope .value) fun _ =>
      caseValueVisits expected scope values

/-! ### Statements -/

mutual

def Stmt.visits (scope : ScopeId) : Stmt → Trace
  | ⟨_, .var decl⟩ =>
    andThen ( Check.annotation decl.ty scope) (optionalTypeVisits scope decl.ty)
      (whenSome fun _ => optionalExprVisits scope decl.value)
  | ⟨span, .fn decl⟩ =>
    andThen (Check.fnDecl decl span scope)
      (signatureVisits decl.params decl.returnType scope)
      (whenSome fun sig => decl.bodyVisits sig scope decl.name)
  | ⟨span, .struct decl⟩ =>
    andThen (Check.structDecl decl span scope) (memberVisits decl span scope)
      (whenSome fun head => decl.methodVisits scope head.signatures)
  | ⟨_, .enum _⟩ | ⟨_, .importModule ..⟩ | ⟨_, .breakLoop⟩ | ⟨_, .continueLoop⟩ => nothing
  | ⟨_, .ret value⟩ => optionalExprVisits scope value
  | ⟨_, .conditional branches otherwise⟩ =>
    andThen (checkBranches scope "if" branches) (branchVisits scope "if" branches) fun _ =>
      optionalBlockVisits scope "else" otherwise
  | ⟨_, .loop init cond step body⟩ =>
    after (addBlock scope "loop") fun inner =>
      andThen (checkOptionalStmt inner init) (optionalStmtVisits inner init) fun _ =>
        andThen (Check.optionalCondition cond inner) (optionalExprVisits inner cond) fun _ =>
          andThen (Check.optionalEffect step inner) (optionalExprVisits inner step) fun _ =>
            Trace.within Walk.enterLoop (body.visitsIn inner "loop body")
  | ⟨_, .switch scrutinee cases otherwise⟩ =>
    andThen (scrutinee.check scope) (scrutinee.visits scope .value) fun ty =>
      andThen (checkCases scope ty cases) (caseVisits scope ty cases) fun _ =>
        optionalBlockVisits scope "default" otherwise
  | ⟨_, .defer stmt⟩ => Trace.within (Walk.enterDefer scope) (stmt.visits scope)
  | ⟨_, .block block⟩ => block.visitsIn scope "block"
  | ⟨_, .expr e⟩ => e.visits scope .value

def stmtVisits (scope : ScopeId) : List Stmt → Trace
  | [] => nothing
  | s :: ss => andThen (s.check scope) (s.visits scope) fun _ => stmtVisits scope ss

def optionalStmtVisits (scope : ScopeId) : Option Stmt → Trace
  | none => nothing
  | some s => s.visits scope

def Block.visitsIn (parent : ScopeId) (name : String) : Block → Trace
  | ⟨_, stmts⟩ => after (addBlock parent name) fun scope => stmtVisits scope stmts

def optionalBlockVisits (parent : ScopeId) (name : String) : Option Block → Trace
  | none => nothing
  | some block => block.visitsIn parent name

def branchVisits (scope : ScopeId) (name : String) : List (Expr × Block) → Trace
  | [] => nothing
  | (cond, block) :: branches =>
    andThen (Check.condition cond scope) (cond.visits scope .value) fun _ =>
      andThen (block.checkIn scope name) (block.visitsIn scope name) fun _ =>
        branchVisits scope "elif" branches

def caseVisits (scope : ScopeId) (expected : Option Ty) : List SwitchCase → Trace
  | [] => nothing
  | ⟨_, values, body⟩ :: cases =>
    andThen (Check.caseValues expected scope values) (caseValueVisits expected scope values)
      fun _ => andThen (body.checkIn scope "case") (body.visitsIn scope "case") fun _ =>
        caseVisits scope expected cases

def FnDecl.bodyVisits (sig : Check.Signature) (parent : ScopeId) (name : String) : FnDecl → Trace
  | ⟨_, params, _, ⟨_, stmts⟩, _, returnsOwnership, takesOwnership⟩ =>
    after (addFunction parent name) fun scope =>
      Trace.within
        (Walk.enterFunction
          { returnType := sig.ret,
            ownership := { function := name, returnsOwnership, takesOwnership } })
        (after (Check.declareParams takesOwnership scope params sig.params) fun _ =>
          stmtVisits scope stmts)

def StructDecl.methodVisits (scope : ScopeId) (signatures : List (Option Check.Signature)) :
    StructDecl → Trace
  | ⟨name, _, _, methods⟩ => methodVisits scope name methods signatures

def methodVisits (scope : ScopeId) (owner : String) :
    List MethodDecl → List (Option Check.Signature) → Trace
  | ⟨span, decl⟩ :: methods, some sig :: signatures =>
    andThen (decl.checkBody sig span scope s!"{owner}.{decl.name}")
      (decl.bodyVisits sig scope s!"{owner}.{decl.name}") fun _ =>
        methodVisits scope owner methods signatures
  | _ :: methods, none :: signatures => methodVisits scope owner methods signatures
  | _, _ => nothing

end

/-- The visits of a module in its scope. -/
def Module.visits (m : Module) (scope : ScopeId) : Trace :=
  fun c => stmtVisits scope m.statements (c.entered m)

end Warden
