import Warden.Proofs.Nodes

/-!
# The expressions of a program and what they are there for

`sites` lists all expressions in a piece of syntax, each as often as it occurs, with its role: the
object before a dot, the callee of a call, the length in an array type, or none of these. This is a
matter of the syntax alone. What the check makes of an expression may depend on its role. Types that
are written with the name of a module are listed as well.

The identities of the expressions are the nodes.
-/

namespace Warden

/-- What an expression is to the syntax around it. -/
inductive Role where
  /-- Just a value. -/
  | value
  /-- The object of `object.member`. -/
  | object
  /-- What is called. -/
  | callee
  /-- The length in an array type. -/
  | length
  deriving DecidableEq, Repr

/-- An occurrence of an expression, or of a type `module::name`. -/
inductive Site where
  | expr (role : Role) (e : Expr)
  | type (t : TypeExpr)

/-- The identity under which the type of an expression is recorded. -/
def Site.id? : Site → Option NodeId
  | .expr _ e => some e.id
  | .type _ => none

mutual

def TypeExpr.sites : TypeExpr → List Site
  | .named _ none _ => []
  | .named span (some module) name => [.type (.named span (some module) name)]
  | .pointer _ pointee => pointee.sites
  | .array _ element none => element.sites
  | .array _ element (some size) => element.sites ++ size.sites .length
  | .function _ params ret => typeSites params ++ ret.sites

def typeSites : List TypeExpr → List Site
  | [] => []
  | t :: ts => t.sites ++ typeSites ts

def Expr.sites (role : Role) : Expr → List Site
  | ⟨id, span, kind⟩ => .expr role ⟨id, span, kind⟩ :: kind.sites

def ExprKind.sites : ExprKind → List Site
  | .int _ | .float _ | .bool _ | .char _ | .str _ | .ident _ | .qualified .. => []
  | .binary _ lhs rhs => lhs.sites .value ++ rhs.sites .value
  | .unary _ operand => operand.sites .value
  | .call callee args => callee.sites .callee ++ exprSites args
  | .member object _ => object.sites .object
  | .index object index => object.sites .value ++ index.sites .value
  | .assign target value => target.sites .value ++ value.sites .value
  | .range start stop => start.sites .value ++ stop.sites .value
  | .structLit _ _ fields => fieldSites fields
  | .arrayLit elements => exprSites elements
  | .cast ty value => ty.sites ++ value.sites .value
  | .sizeOfType ty => ty.sites

def exprSites : List Expr → List Site
  | [] => []
  | e :: es => e.sites .value ++ exprSites es

def fieldSites : List (String × Expr) → List Site
  | [] => []
  | (_, e) :: fields => e.sites .value ++ fieldSites fields

end

def optionalTypeSites : Option TypeExpr → List Site
  | none => []
  | some ty => ty.sites

def optionalExprSites : Option Expr → List Site
  | none => []
  | some e => e.sites .value

def paramSites : List Param → List Site
  | [] => []
  | p :: ps => p.ty.sites ++ paramSites ps

def fieldDeclSites : List FieldDecl → List Site
  | [] => []
  | f :: fs => f.ty.sites ++ fieldDeclSites fs

mutual

def Stmt.sites : Stmt → List Site
  | ⟨_, .var decl⟩ => optionalTypeSites decl.ty ++ optionalExprSites decl.value
  | ⟨_, .fn decl⟩ => decl.sites
  | ⟨_, .struct decl⟩ => decl.sites
  | ⟨_, .enum _⟩ | ⟨_, .importModule ..⟩ | ⟨_, .breakLoop⟩ | ⟨_, .continueLoop⟩ => []
  | ⟨_, .ret value⟩ => optionalExprSites value
  | ⟨_, .conditional branches otherwise⟩ => branchSites branches ++ optionalBlockSites otherwise
  | ⟨_, .loop init cond step body⟩ =>
    optionalStmtSites init ++ (optionalExprSites cond ++ (optionalExprSites step ++ body.sites))
  | ⟨_, .switch scrutinee cases otherwise⟩ =>
    scrutinee.sites .value ++ (caseSites cases ++ optionalBlockSites otherwise)
  | ⟨_, .defer stmt⟩ => stmt.sites
  | ⟨_, .block block⟩ => block.sites
  | ⟨_, .expr e⟩ => e.sites .value

def stmtSites : List Stmt → List Site
  | [] => []
  | s :: ss => s.sites ++ stmtSites ss

def optionalStmtSites : Option Stmt → List Site
  | none => []
  | some s => s.sites

def Block.sites : Block → List Site
  | ⟨_, stmts⟩ => stmtSites stmts

def optionalBlockSites : Option Block → List Site
  | none => []
  | some block => block.sites

def branchSites : List (Expr × Block) → List Site
  | [] => []
  | (cond, block) :: branches => cond.sites .value ++ (block.sites ++ branchSites branches)

def caseSites : List SwitchCase → List Site
  | [] => []
  | ⟨_, values, body⟩ :: cases => exprSites values ++ (body.sites ++ caseSites cases)

def FnDecl.sites : FnDecl → List Site
  | ⟨_, params, returnType, body, _, _, _⟩ =>
    paramSites params ++ (returnType.sites ++ body.sites)

def StructDecl.sites : StructDecl → List Site
  | ⟨_, _, fields, methods⟩ => fieldDeclSites fields ++ methodSites methods

def methodSites : List MethodDecl → List Site
  | [] => []
  | ⟨_, decl⟩ :: methods => decl.sites ++ methodSites methods

end

def Module.sites (m : Module) : List Site :=
  stmtSites m.body

/-! ### The identities of sites -/

mutual

theorem TypeExpr.filterMap_sites : (t : TypeExpr) → t.sites.filterMap Site.id? = t.nodes
  | .named _ none _ | .named _ (some _) _ => rfl
  | .pointer _ pointee => pointee.filterMap_sites
  | .array _ element none => element.filterMap_sites
  | .array _ element (some size) => by
    rw [TypeExpr.sites, TypeExpr.nodes, List.filterMap_append, element.filterMap_sites,
      size.filterMap_sites]
  | .function _ params ret => by
    rw [TypeExpr.sites, TypeExpr.nodes, List.filterMap_append, filterMap_typeSites params,
      ret.filterMap_sites]

theorem filterMap_typeSites :
    (ts : List TypeExpr) → (typeSites ts).filterMap Site.id? = typeNodes ts
  | [] => rfl
  | t :: ts => by
    rw [typeSites, typeNodes, List.filterMap_append, t.filterMap_sites, filterMap_typeSites ts]

theorem Expr.filterMap_sites :
    (e : Expr) → ∀ {role : Role}, (e.sites role).filterMap Site.id? = e.nodes
  | ⟨id, _, kind⟩, _ => congrArg (id :: ·) kind.filterMap_sites

theorem ExprKind.filterMap_sites : (kind : ExprKind) → kind.sites.filterMap Site.id? = kind.nodes
  | .int _ | .float _ | .bool _ | .char _ | .str _ | .ident _ | .qualified .. => rfl
  | .binary _ lhs rhs => by
    rw [ExprKind.sites, ExprKind.nodes, List.filterMap_append, lhs.filterMap_sites,
      rhs.filterMap_sites]
  | .unary _ operand => operand.filterMap_sites
  | .call callee args => by
    rw [ExprKind.sites, ExprKind.nodes, List.filterMap_append, callee.filterMap_sites,
      filterMap_exprSites args]
  | .member object _ => object.filterMap_sites
  | .index object index => by
    rw [ExprKind.sites, ExprKind.nodes, List.filterMap_append, object.filterMap_sites,
      index.filterMap_sites]
  | .assign target value => by
    rw [ExprKind.sites, ExprKind.nodes, List.filterMap_append, target.filterMap_sites,
      value.filterMap_sites]
  | .range start stop => by
    rw [ExprKind.sites, ExprKind.nodes, List.filterMap_append, start.filterMap_sites,
      stop.filterMap_sites]
  | .structLit _ _ fields => filterMap_fieldSites fields
  | .arrayLit elements => filterMap_exprSites elements
  | .cast ty value => by
    rw [ExprKind.sites, ExprKind.nodes, List.filterMap_append, ty.filterMap_sites,
      value.filterMap_sites]
  | .sizeOfType ty => ty.filterMap_sites

theorem filterMap_exprSites : (es : List Expr) → (exprSites es).filterMap Site.id? = exprNodes es
  | [] => rfl
  | e :: es => by
    rw [exprSites, exprNodes, List.filterMap_append, e.filterMap_sites, filterMap_exprSites es]

theorem filterMap_fieldSites :
    (fields : List (String × Expr)) → (fieldSites fields).filterMap Site.id? = fieldNodes fields
  | [] => rfl
  | (_, e) :: fields => by
    rw [fieldSites, fieldNodes, List.filterMap_append, e.filterMap_sites,
      filterMap_fieldSites fields]

end

theorem filterMap_optionalTypeSites (ty : Option TypeExpr) :
    (optionalTypeSites ty).filterMap Site.id? = optionalTypeNodes ty := by
  cases ty with
  | none => rfl
  | some ty => exact ty.filterMap_sites

theorem filterMap_optionalExprSites (e : Option Expr) :
    (optionalExprSites e).filterMap Site.id? = optionalExprNodes e := by
  cases e with
  | none => rfl
  | some e => exact e.filterMap_sites

theorem filterMap_paramSites (params : List Param) :
    (paramSites params).filterMap Site.id? = paramNodes params := by
  induction params with
  | nil => rfl
  | cons p ps ih => rw [paramSites, paramNodes, List.filterMap_append, p.ty.filterMap_sites, ih]

theorem filterMap_fieldDeclSites (fields : List FieldDecl) :
    (fieldDeclSites fields).filterMap Site.id? = fieldDeclNodes fields := by
  induction fields with
  | nil => rfl
  | cons f fs ih =>
    rw [fieldDeclSites, fieldDeclNodes, List.filterMap_append, f.ty.filterMap_sites, ih]

mutual

theorem Stmt.filterMap_sites : (s : Stmt) → s.sites.filterMap Site.id? = s.nodes
  | ⟨_, .var decl⟩ => by
    rw [Stmt.sites, Stmt.nodes, List.filterMap_append, filterMap_optionalTypeSites,
      filterMap_optionalExprSites]
  | ⟨_, .fn decl⟩ => decl.filterMap_sites
  | ⟨_, .struct decl⟩ => decl.filterMap_sites
  | ⟨_, .enum _⟩ | ⟨_, .importModule ..⟩ | ⟨_, .breakLoop⟩ | ⟨_, .continueLoop⟩ => rfl
  | ⟨_, .ret value⟩ => filterMap_optionalExprSites value
  | ⟨_, .conditional branches otherwise⟩ => by
    rw [Stmt.sites, Stmt.nodes, List.filterMap_append, filterMap_branchSites branches,
      filterMap_optionalBlockSites otherwise]
  | ⟨_, .loop init cond step body⟩ => by
    simp only [Stmt.sites, Stmt.nodes, List.filterMap_append, filterMap_optionalStmtSites init,
      filterMap_optionalExprSites, body.filterMap_sites]
  | ⟨_, .switch scrutinee cases otherwise⟩ => by
    simp only [Stmt.sites, Stmt.nodes, List.filterMap_append, scrutinee.filterMap_sites,
      filterMap_caseSites cases, filterMap_optionalBlockSites otherwise]
  | ⟨_, .defer stmt⟩ => stmt.filterMap_sites
  | ⟨_, .block block⟩ => block.filterMap_sites
  | ⟨_, .expr e⟩ => e.filterMap_sites

theorem filterMap_stmtSites : (ss : List Stmt) → (stmtSites ss).filterMap Site.id? = stmtNodes ss
  | [] => rfl
  | s :: ss => by
    rw [stmtSites, stmtNodes, List.filterMap_append, s.filterMap_sites, filterMap_stmtSites ss]

theorem filterMap_optionalStmtSites :
    (s : Option Stmt) → (optionalStmtSites s).filterMap Site.id? = optionalStmtNodes s
  | none => rfl
  | some s => s.filterMap_sites

theorem Block.filterMap_sites : (b : Block) → b.sites.filterMap Site.id? = b.nodes
  | ⟨_, stmts⟩ => filterMap_stmtSites stmts

theorem filterMap_optionalBlockSites :
    (b : Option Block) → (optionalBlockSites b).filterMap Site.id? = optionalBlockNodes b
  | none => rfl
  | some b => b.filterMap_sites

theorem filterMap_branchSites : (branches : List (Expr × Block)) →
      (branchSites branches).filterMap Site.id? = branchNodes branches
  | [] => rfl
  | (cond, block) :: branches => by
    simp only [branchSites, branchNodes, List.filterMap_append, cond.filterMap_sites,
      block.filterMap_sites, filterMap_branchSites branches]

theorem filterMap_caseSites :
    (cases : List SwitchCase) → (caseSites cases).filterMap Site.id? = caseNodes cases
  | [] => rfl
  | ⟨_, values, body⟩ :: cases => by
    simp only [caseSites, caseNodes, List.filterMap_append, filterMap_exprSites,
      body.filterMap_sites, filterMap_caseSites cases]

theorem FnDecl.filterMap_sites : (d : FnDecl) → d.sites.filterMap Site.id? = d.nodes
  | ⟨_, params, returnType, body, _, _, _⟩ => by
    simp only [FnDecl.sites, FnDecl.nodes, List.filterMap_append, filterMap_paramSites,
      returnType.filterMap_sites, body.filterMap_sites]

theorem StructDecl.filterMap_sites : (d : StructDecl) → d.sites.filterMap Site.id? = d.nodes
  | ⟨_, _, fields, methods⟩ => by
    rw [StructDecl.sites, StructDecl.nodes, List.filterMap_append, filterMap_fieldDeclSites,
      filterMap_methodSites methods]

theorem filterMap_methodSites :
    (methods : List MethodDecl) → (methodSites methods).filterMap Site.id? = methodNodes methods
  | [] => rfl
  | ⟨_, decl⟩ :: methods => by
    rw [methodSites, methodNodes, List.filterMap_append, decl.filterMap_sites,
      filterMap_methodSites methods]

end

theorem Module.filterMap_sites (m : Module) : m.sites.filterMap Site.id? = m.nodes :=
  filterMap_stmtSites m.body

end Warden
