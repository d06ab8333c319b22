import Warden.Syntax.Basic

/-!
# Identities for expressions

The checker records one type per identity, so a program should give each expression its own.
`Program.identified` numbers all expressions 1, 2, 3, … over the modules in order. An expression
comes before its parts, and parts come in the order in which the syntax lists them.

The running state is the next free identity.
-/

namespace Warden

/-- Handing out identities keeps the next free one. -/
abbrev Identifying := StateM NodeId

namespace Identifying

/-- Takes the next identity. -/
def fresh : Identifying NodeId := do
  let next ← get
  set (next + 1)
  return next

/-- Identifies the parts of an optional node. -/
def optional {α : Type} (f : α → Identifying α) : Option α → Identifying (Option α)
  | none => return none
  | some a => return some (← f a)

end Identifying

mutual

def TypeExpr.identified : TypeExpr → Identifying TypeExpr
  | .named span module name => return .named span module name
  | .pointer span pointee => return .pointer span (← pointee.identified)
  | .array span element none => return .array span (← element.identified) none
  | .array span element (some size) =>
    return .array span (← element.identified) (some (← size.identified))
  | .function span params ret =>
    return .function span (← identifiedTypes params) (← ret.identified)

def identifiedTypes : List TypeExpr → Identifying (List TypeExpr)
  | [] => return []
  | t :: ts => return (← t.identified) :: (← identifiedTypes ts)

def Expr.identified : Expr → Identifying Expr
  | ⟨_, span, kind⟩ => return ⟨← Identifying.fresh, span, ← kind.identified⟩

def ExprKind.identified : ExprKind → Identifying ExprKind
  | .int value => return .int value
  | .float value => return .float value
  | .bool value => return .bool value
  | .char value => return .char value
  | .str value => return .str value
  | .ident name => return .ident name
  | .qualified module name => return .qualified module name
  | .binary op lhs rhs => return .binary op (← lhs.identified) (← rhs.identified)
  | .unary op operand => return .unary op (← operand.identified)
  | .call callee args => return .call (← callee.identified) (← identifiedExprs args)
  | .member object member => return .member (← object.identified) member
  | .index object index => return .index (← object.identified) (← index.identified)
  | .assign target value => return .assign (← target.identified) (← value.identified)
  | .range start stop => return .range (← start.identified) (← stop.identified)
  | .structLit module name fields => return .structLit module name (← identifiedFields fields)
  | .arrayLit elements => return .arrayLit (← identifiedExprs elements)
  | .cast ty value => return .cast (← ty.identified) (← value.identified)
  | .sizeOfType ty => return .sizeOfType (← ty.identified)

def identifiedExprs : List Expr → Identifying (List Expr)
  | [] => return []
  | e :: es => return (← e.identified) :: (← identifiedExprs es)

def identifiedFields : List (String × Expr) → Identifying (List (String × Expr))
  | [] => return []
  | (name, e) :: fields => return (name, ← e.identified) :: (← identifiedFields fields)

end

namespace VarDecl

def identified (d : VarDecl) : Identifying VarDecl := do
  let ty ← Identifying.optional TypeExpr.identified d.ty
  let value ← Identifying.optional Expr.identified d.value
  return { d with ty, value }

end VarDecl

def identifiedParams : List Param → Identifying (List Param)
  | [] => return []
  | p :: ps => return { p with ty := ← p.ty.identified } :: (← identifiedParams ps)

def identifiedFieldDecls : List FieldDecl → Identifying (List FieldDecl)
  | [] => return []
  | f :: fs => return { f with ty := ← f.ty.identified } :: (← identifiedFieldDecls fs)

mutual

def Stmt.identified : Stmt → Identifying Stmt
  | ⟨span, kind⟩ => return ⟨span, ← kind.identified⟩

def StmtKind.identified : StmtKind → Identifying StmtKind
  | .var decl => return .var (← decl.identified)
  | .fn decl => return .fn (← decl.identified)
  | .struct decl => return .struct (← decl.identified)
  | .enum decl => return .enum decl
  | .importModule module localName => return .importModule module localName
  | .ret value => return .ret (← Identifying.optional Expr.identified value)
  | .conditional branches none => return .conditional (← identifiedBranches branches) none
  | .conditional branches (some block) =>
    return .conditional (← identifiedBranches branches) (some (← block.identified))
  | .loop none cond step body =>
    return .loop none (← Identifying.optional Expr.identified cond)
      (← Identifying.optional Expr.identified step) (← body.identified)
  | .loop (some init) cond step body =>
    return .loop (some (← init.identified)) (← Identifying.optional Expr.identified cond)
      (← Identifying.optional Expr.identified step) (← body.identified)
  | .breakLoop => return .breakLoop
  | .continueLoop => return .continueLoop
  | .switch scrutinee cases none =>
    return .switch (← scrutinee.identified) (← identifiedCases cases) none
  | .switch scrutinee cases (some block) =>
    return .switch (← scrutinee.identified) (← identifiedCases cases) (some (← block.identified))
  | .defer stmt => return .defer (← stmt.identified)
  | .block block => return .block (← block.identified)
  | .expr e => return .expr (← e.identified)

def Block.identified : Block → Identifying Block
  | ⟨span, stmts⟩ => return ⟨span, ← identifiedStmts stmts⟩

def identifiedStmts : List Stmt → Identifying (List Stmt)
  | [] => return []
  | s :: ss => return (← s.identified) :: (← identifiedStmts ss)

def identifiedBranches : List (Expr × Block) → Identifying (List (Expr × Block))
  | [] => return []
  | (cond, block) :: branches =>
    return (← cond.identified, ← block.identified) :: (← identifiedBranches branches)

def identifiedCases : List SwitchCase → Identifying (List SwitchCase)
  | [] => return []
  | ⟨span, values, body⟩ :: cases =>
    return ⟨span, ← identifiedExprs values, ← body.identified⟩ :: (← identifiedCases cases)

def FnDecl.identified : FnDecl → Identifying FnDecl
  | ⟨name, params, returnType, body, isPublic, returnsOwnership, takesOwnership⟩ =>
    return ⟨name, ← identifiedParams params, ← returnType.identified, ← body.identified, isPublic,
      returnsOwnership, takesOwnership⟩

def StructDecl.identified : StructDecl → Identifying StructDecl
  | ⟨name, isPublic, fields, methods⟩ =>
    return ⟨name, isPublic, ← identifiedFieldDecls fields, ← identifiedMethods methods⟩

def identifiedMethods : List MethodDecl → Identifying (List MethodDecl)
  | [] => return []
  | ⟨span, decl⟩ :: methods => return ⟨span, ← decl.identified⟩ :: (← identifiedMethods methods)

end

def identifiedModules : List Module → Identifying (List Module)
  | [] => return []
  | m :: ms => return { m with body := ← identifiedStmts m.body } :: (← identifiedModules ms)

namespace Program

/-- The program with its expressions identified from `next` on, and the next free identity. -/
def identifiedFrom (p : Program) (next : NodeId) : Program × NodeId :=
  let (modules, next) := (identifiedModules p.modules).run next
  (⟨modules⟩, next)

/-- The program with its expressions identified 1, 2, 3, … -/
def identified (p : Program) : Program :=
  (p.identifiedFrom 1).1

end Program

end Warden
