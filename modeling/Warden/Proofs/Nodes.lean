import Warden.Syntax.Basic

/-!
# The expressions of a piece of syntax

The check records types under the identities of expressions, so what two pieces of syntax share is
seen from the identities in them. `nodes` lists the identities of all expressions in a type, an
expression, a statement or a module, each as often as it occurs.
-/

namespace Warden

mutual

def TypeExpr.nodes : TypeExpr → List NodeId
  | .named .. => []
  | .pointer _ pointee => pointee.nodes
  | .array _ element none => element.nodes
  | .array _ element (some size) => element.nodes ++ size.nodes
  | .function _ params ret => typeNodes params ++ ret.nodes

def typeNodes : List TypeExpr → List NodeId
  | [] => []
  | t :: ts => t.nodes ++ typeNodes ts

def Expr.nodes : Expr → List NodeId
  | ⟨id, _, kind⟩ => id :: kind.nodes

def ExprKind.nodes : ExprKind → List NodeId
  | .int _ | .float _ | .bool _ | .char _ | .str _ | .ident _ | .qualified .. => []
  | .binary _ lhs rhs => lhs.nodes ++ rhs.nodes
  | .unary _ operand => operand.nodes
  | .call callee args => callee.nodes ++ exprNodes args
  | .member object _ => object.nodes
  | .index object index => object.nodes ++ index.nodes
  | .assign target value => target.nodes ++ value.nodes
  | .range start stop => start.nodes ++ stop.nodes
  | .structLit _ _ fields => fieldNodes fields
  | .arrayLit elements => exprNodes elements
  | .cast ty value => ty.nodes ++ value.nodes
  | .sizeOfType ty => ty.nodes

def exprNodes : List Expr → List NodeId
  | [] => []
  | e :: es => e.nodes ++ exprNodes es

def fieldNodes : List (String × Expr) → List NodeId
  | [] => []
  | (_, e) :: fields => e.nodes ++ fieldNodes fields

end

theorem Expr.id_mem_nodes (e : Expr) : e.id ∈ e.nodes := by
  obtain ⟨id, span, kind⟩ := e
  exact .head _

def optionalTypeNodes : Option TypeExpr → List NodeId
  | none => []
  | some ty => ty.nodes

def optionalExprNodes : Option Expr → List NodeId
  | none => []
  | some e => e.nodes

def paramNodes : List Param → List NodeId
  | [] => []
  | p :: ps => p.ty.nodes ++ paramNodes ps

def fieldDeclNodes : List FieldDecl → List NodeId
  | [] => []
  | f :: fs => f.ty.nodes ++ fieldDeclNodes fs

mutual

def Stmt.nodes : Stmt → List NodeId
  | ⟨_, .var decl⟩ => optionalTypeNodes decl.ty ++ optionalExprNodes decl.value
  | ⟨_, .fn decl⟩ => decl.nodes
  | ⟨_, .struct decl⟩ => decl.nodes
  | ⟨_, .enum _⟩ | ⟨_, .importModule ..⟩ | ⟨_, .breakLoop⟩ | ⟨_, .continueLoop⟩ => []
  | ⟨_, .ret value⟩ => optionalExprNodes value
  | ⟨_, .conditional branches otherwise⟩ => branchNodes branches ++ optionalBlockNodes otherwise
  | ⟨_, .loop init cond step body⟩ =>
    optionalStmtNodes init ++ (optionalExprNodes cond ++ (optionalExprNodes step ++ body.nodes))
  | ⟨_, .switch scrutinee cases otherwise⟩ =>
    scrutinee.nodes ++ (caseNodes cases ++ optionalBlockNodes otherwise)
  | ⟨_, .defer stmt⟩ => stmt.nodes
  | ⟨_, .block block⟩ => block.nodes
  | ⟨_, .expr e⟩ => e.nodes

def stmtNodes : List Stmt → List NodeId
  | [] => []
  | s :: ss => s.nodes ++ stmtNodes ss

def optionalStmtNodes : Option Stmt → List NodeId
  | none => []
  | some s => s.nodes

def Block.nodes : Block → List NodeId
  | ⟨_, stmts⟩ => stmtNodes stmts

def optionalBlockNodes : Option Block → List NodeId
  | none => []
  | some block => block.nodes

def branchNodes : List (Expr × Block) → List NodeId
  | [] => []
  | (cond, block) :: branches => cond.nodes ++ (block.nodes ++ branchNodes branches)

def caseNodes : List SwitchCase → List NodeId
  | [] => []
  | ⟨_, values, body⟩ :: cases => exprNodes values ++ (body.nodes ++ caseNodes cases)

def FnDecl.nodes : FnDecl → List NodeId
  | ⟨_, params, returnType, body, _, _, _⟩ =>
    paramNodes params ++ (returnType.nodes ++ body.nodes)

def StructDecl.nodes : StructDecl → List NodeId
  | ⟨_, _, fields, methods⟩ => fieldDeclNodes fields ++ methodNodes methods

def methodNodes : List MethodDecl → List NodeId
  | [] => []
  | ⟨_, decl⟩ :: methods => decl.nodes ++ methodNodes methods

end

theorem mem_stmtNodes {ss : List Stmt} {id : NodeId} :
    id ∈ stmtNodes ss ↔ ∃ s ∈ ss, id ∈ s.nodes := by
  induction ss with
  | nil => simp [stmtNodes]
  | cons s ss ih => simp [stmtNodes, ih]

def Module.nodes (m : Module) : List NodeId :=
  stmtNodes m.body

end Warden
