import Warden.Syntax.Basic

/-!
# Line numbers for syntax made in code

Syntax made in code has no places, but diagnostics need lines to point at. `Module.numbered` gives
every unplaced node a line, as if the module had been written out with one statement, field, method
or case per line:

* statements, struct fields, methods and switch cases take the next free line, in source order;
* the first statement of a loop's head and the statement under a `defer` share their parent's line;
* expressions, types and parameters take the line of the node they stand in.

A node that already has a line keeps its span, and lines after it continue from there. The one
exception are the statements that share their parent's line: they always follow the parent.

The running state is the next free line.
-/

namespace Warden

/-! ### Nodes that take the line they stand in -/

namespace Expr

/-- Width of the token an unplaced expression is given: a name's length, otherwise 1. -/
def ownSpan (line : Nat) : ExprKind → Span
  | .ident name => .ofName line name
  | _ => .point line 1

end Expr

mutual

/-- Puts a written type and all its parts on a line. -/
def TypeExpr.placed (line : Nat) : TypeExpr → TypeExpr
  | .named span module name => .named (span.orAt (.ofName line name)) module name
  | .pointer span pointee => .pointer (span.orAt (.point line 1)) (pointee.placed line)
  | .array span element none => .array (span.orAt (.point line 1)) (element.placed line) none
  | .array span element (some size) =>
    .array (span.orAt (.point line 1)) (element.placed line) (some (size.placed line))
  | .function span params ret =>
    .function (span.orAt (.point line 1)) (placedTypes line params) (ret.placed line)

def placedTypes (line : Nat) : List TypeExpr → List TypeExpr
  | [] => []
  | t :: ts => t.placed line :: placedTypes line ts

/-- Puts an expression and all its parts on a line. -/
def Expr.placed (line : Nat) : Expr → Expr
  | ⟨id, span, kind⟩ => ⟨id, span.orAt (Expr.ownSpan line kind), kind.placed line⟩

def ExprKind.placed (line : Nat) : ExprKind → ExprKind
  | .int value => .int value
  | .float value => .float value
  | .bool value => .bool value
  | .char value => .char value
  | .str value => .str value
  | .ident name => .ident name
  | .qualified module name => .qualified module name
  | .binary op lhs rhs => .binary op (lhs.placed line) (rhs.placed line)
  | .unary op operand => .unary op (operand.placed line)
  | .call callee args => .call (callee.placed line) (placedExprs line args)
  | .member object member => .member (object.placed line) member
  | .index object index => .index (object.placed line) (index.placed line)
  | .assign target value => .assign (target.placed line) (value.placed line)
  | .range start stop => .range (start.placed line) (stop.placed line)
  | .structLit module name fields => .structLit module name (placedFields line fields)
  | .arrayLit elements => .arrayLit (placedExprs line elements)
  | .cast ty value => .cast (ty.placed line) (value.placed line)
  | .sizeOfType ty => .sizeOfType (ty.placed line)

def placedExprs (line : Nat) : List Expr → List Expr
  | [] => []
  | e :: es => e.placed line :: placedExprs line es

def placedFields (line : Nat) : List (String × Expr) → List (String × Expr)
  | [] => []
  | (name, e) :: fields => (name, e.placed line) :: placedFields line fields

end

namespace VarDecl

def placed (line : Nat) (d : VarDecl) : VarDecl :=
  { d with ty := d.ty.map (·.placed line), value := d.value.map (·.placed line) }

end VarDecl

namespace Param

/-- A parameter is as wide as its name, and its type stands on the function's line. -/
def placed (line : Nat) (p : Param) : Param :=
  { p with span := p.span.orAt (.ofName line p.name), ty := p.ty.placed line }

end Param

/-! ### Nodes that take a line of their own -/

/-- Numbering keeps the next free line. -/
abbrev Numbering := StateM Nat

namespace Numbering

/-- The span of a field, method or case: the next free line, unless it has one. -/
def claimLine (span : Span) : Numbering Span := do
  if span.isPlaced then return span
  let next ← get
  set (next + 1)
  return .point next 1

/-- The span of a statement: the next free line, unless it has one. Later lines come after it. -/
def claimStmtLine (span : Span) : Numbering Span := do
  let next ← get
  let span := span.orAt (.point next 1)
  set (max next (span.line + 1))
  return span

/-- The span of a block: where its first statement will go, unless it has a place. -/
def blockSpan (span : Span) : Numbering Span := do
  return span.orAt (.point (← get) 1)

/-- Runs the numbering of a statement that shares line `line` with its parent. -/
def sharing {α : Type} (line : Nat) (action : Numbering α) : Numbering α := do
  let saved ← get
  set (line + 1)
  let result ← action
  modify (max · saved)
  return result

end Numbering

namespace FieldDecl

def numbered (f : FieldDecl) : Numbering FieldDecl := do
  let span ← Numbering.claimLine f.span
  return { f with span, ty := f.ty.placed span.line }

end FieldDecl

def numberedFields : List FieldDecl → Numbering (List FieldDecl)
  | [] => return []
  | f :: fs => return (← f.numbered) :: (← numberedFields fs)

mutual

def Stmt.numbered : Stmt → Numbering Stmt
  | ⟨span, kind⟩ => do
    let span ← Numbering.claimStmtLine span
    return ⟨span, ← kind.numbered span.line⟩

/-- A statement on its parent's line. -/
def Stmt.numberedOn (line : Nat) : Stmt → Numbering Stmt
  | ⟨_, kind⟩ => return ⟨.point line 1, ← Numbering.sharing line (kind.numbered line)⟩

/-- Numbers what stands inside a statement on line `line`. -/
def StmtKind.numbered (line : Nat) : StmtKind → Numbering StmtKind
  | .var decl => return .var (decl.placed line)
  | .fn decl => return .fn (← decl.numbered line)
  | .struct decl => return .struct (← decl.numbered)
  | .enum decl => return .enum decl
  | .importModule module localName => return .importModule module localName
  | .ret value => return .ret (value.map (·.placed line))
  | .conditional branches none => return .conditional (← numberedBranches line branches) none
  | .conditional branches (some block) =>
    return .conditional (← numberedBranches line branches) (some (← block.numbered))
  | .loop none cond step body =>
    return .loop none (cond.map (·.placed line)) (step.map (·.placed line)) (← body.numbered)
  | .loop (some init) cond step body =>
    return .loop (some (← init.numberedOn line)) (cond.map (·.placed line))
      (step.map (·.placed line)) (← body.numbered)
  | .breakLoop => return .breakLoop
  | .continueLoop => return .continueLoop
  | .switch scrutinee cases none =>
    return .switch (scrutinee.placed line) (← numberedCases cases) none
  | .switch scrutinee cases (some block) =>
    return .switch (scrutinee.placed line) (← numberedCases cases) (some (← block.numbered))
  | .defer stmt => return .defer (← stmt.numberedOn line)
  | .block block => return .block (← block.numbered)
  | .expr e => return .expr (e.placed line)

def Block.numbered : Block → Numbering Block
  | ⟨span, stmts⟩ => do
    let span ← Numbering.blockSpan span
    return ⟨span, ← numberedStmts stmts⟩

def numberedStmts : List Stmt → Numbering (List Stmt)
  | [] => return []
  | s :: ss => return (← s.numbered) :: (← numberedStmts ss)

def numberedBranches (line : Nat) : List (Expr × Block) → Numbering (List (Expr × Block))
  | [] => return []
  | (cond, block) :: branches =>
    return (cond.placed line, ← block.numbered) :: (← numberedBranches line branches)

def numberedCases : List SwitchCase → Numbering (List SwitchCase)
  | [] => return []
  | ⟨span, values, body⟩ :: cases => do
    let span ← Numbering.claimLine span
    let body ← body.numbered
    return ⟨span, placedExprs span.line values, body⟩ :: (← numberedCases cases)

def FnDecl.numbered (line : Nat) : FnDecl → Numbering FnDecl
  | ⟨name, params, returnType, body, isPublic, returnsOwnership, takesOwnership⟩ =>
    return ⟨name, params.map (·.placed line), returnType.placed line, ← body.numbered, isPublic,
      returnsOwnership, takesOwnership⟩

def StructDecl.numbered : StructDecl → Numbering StructDecl
  | ⟨name, isPublic, fields, methods⟩ =>
    return ⟨name, isPublic, ← numberedFields fields, ← numberedMethods methods⟩

def numberedMethods : List MethodDecl → Numbering (List MethodDecl)
  | [] => return []
  | ⟨span, decl⟩ :: methods => do
    let span ← Numbering.claimLine span
    let decl ← decl.numbered span.line
    return ⟨span, decl⟩ :: (← numberedMethods methods)

end

namespace Module

/-- A module made in code: its file is named after it and its lines are numbered from 1. -/
def numbered (name : String) (body : List Stmt) : Module :=
  { span := .point 1 1
    name
    filePath := name ++ ".fe"
    body := (numberedStmts body |>.run 1).1 }

end Module

end Warden
